import Kumiko.EventStore.Snapshots
import Kumiko.EventStore.Transfer

/-!
# The streams of a transfer

What `transferAggregateStreams` leaves of the event store: the events of one aggregate type go to another
tenant, with the archive markers of that type, and the snapshots are dropped. The keys of events and markers do
not have the type, so a stream of several types is taken apart (`not_streamsMoved`). `WholeStreams` says when
the streams move as they are, and only then (`streams_of_transfer`).
-/

namespace Kumiko

/-- A row of `kumiko_archived_streams`. Reference: `archivedStreamsTable` (`event-store/archive.ts`). -/
structure ArchivedStreamRow where
  tenantId : String
  aggregateId : String
  aggregateType : String
  deriving DecidableEq

/-- The primary key. -/
def ArchivedStreamRow.stream (m : ArchivedStreamRow) : String × String := (m.tenantId, m.aggregateId)

/-- The payload of an `aggregate.transferred` event. -/
structure AggregateTransferred where
  aggregateType : String
  aggregateId : String
  sourceTenantId : String
  destinationTenantId : String

/-- Reference: `AGGREGATE_TRANSFER_STREAM_TYPE`. -/
def aggregateTransferStreamType : String := "aggregate-transfer"

/-- Reference: `AGGREGATE_TRANSFERRED_EVENT_TYPE`. -/
def aggregateTransferredEventType : String := "kumiko:system:aggregate.transferred"

/-- The tables of the event store as a transaction sees them: its id, the id sequence, the events by ascending id,
the archive markers, the snapshots, and the payloads of the transfer events by event id. -/
structure StreamTables (S : Type*) where
  xid : ℕ
  nextId : ℕ
  events : List EventRow
  archived : List ArchivedStreamRow
  snapshots : List (SnapshotRow S)
  transferred : List (ℕ × AggregateTransferred)

/-- Why a transfer fails: its update of the events or of the markers violates a unique index, or the append of a
transfer event fails. -/
inductive TransferError
  | eventsUnique
  | archivedStreamsPk
  | append (e : AppendError)

namespace StreamTables

variable {S : Type*} (t : StreamTables S)

/-- The events of a stream. -/
def streamRows (stream : String × String) : List EventRow := t.events.filter (·.stream = stream)

/-- Reference: `isStreamArchived`. -/
def IsStreamArchived (stream : String × String) : Prop := ∃ m ∈ t.archived, m.stream = stream

instance (stream : String × String) : Decidable (t.IsStreamArchived stream) :=
  inferInstanceAs (Decidable (∃ m ∈ _, _))

/-! ## The statements -/

/-- The rows that `transferEventRows` updates. -/
def movableRows (args : TransferArgs) : List EventRow :=
  t.events.filter fun r => r.tenantId = args.sourceTenantId ∧ r.aggregateType = args.aggregateType ∧
    r.aggregateId ∈ args.aggregateIds

/-- The update of the rows. -/
def transferOf (args : TransferArgs) : OpenTransfer where
  source := args.sourceTenantId
  destination := args.destinationTenantId
  ids := (t.movableRows args).map (·.id)

/-- What `transferEventRows` returns. -/
def movedAggregateIds (args : TransferArgs) : List String := ((t.movableRows args).map (·.aggregateId)).dedup

/-- The update violates a unique index of the events. -/
def EventsConflict (args : TransferArgs) : Prop :=
  ∃ r ∈ t.movableRows args, ∃ r' ∈ t.events, r'.id ≠ r.id ∧ RowsConflict ((t.transferOf args).moveRow r) r'

instance (args : TransferArgs) : Decidable (t.EventsConflict args) := inferInstanceAs (Decidable (∃ r ∈ _, _))

/-- Reference: `transferEventRows`. -/
def transferEventRows (args : TransferArgs) : Except TransferError (StreamTables S × List String) :=
  if t.EventsConflict args then .error .eventsUnique
  else .ok ({ t with events := t.events.map (t.transferOf args).moveRow }, t.movedAggregateIds args)

/-- Reference: `deleteSnapshotsForAggregates`. -/
def deleteSnapshotsForAggregates (tenantId : String) (aggregateIds : List String) : StreamTables S :=
  { t with snapshots := t.snapshots.filter fun row => ¬ (row.tenantId = tenantId ∧ row.aggregateId ∈ aggregateIds) }

/-- `transferArchivedStreamRows` updates the marker. -/
def MarkerMoves (args : TransferArgs) (aggregateIds : List String) (m : ArchivedStreamRow) : Prop :=
  m.tenantId = args.sourceTenantId ∧ m.aggregateType = args.aggregateType ∧ m.aggregateId ∈ aggregateIds

instance (args : TransferArgs) (aggregateIds : List String) (m : ArchivedStreamRow) :
    Decidable (MarkerMoves args aggregateIds m) := inferInstanceAs (Decidable (_ ∧ _))

/-- The marker after the update. -/
def moveMarker (args : TransferArgs) (aggregateIds : List String) (m : ArchivedStreamRow) : ArchivedStreamRow :=
  if MarkerMoves args aggregateIds m then { m with tenantId := args.destinationTenantId } else m

/-- The update violates the primary key of the markers. -/
def ArchivedConflict (args : TransferArgs) (aggregateIds : List String) : Prop :=
  ∃ m ∈ t.archived, MarkerMoves args aggregateIds m ∧
    ∃ m' ∈ t.archived, m' ≠ m ∧ m'.stream = (args.destinationTenantId, m.aggregateId)

instance (args : TransferArgs) (aggregateIds : List String) : Decidable (t.ArchivedConflict args aggregateIds) :=
  inferInstanceAs (Decidable (∃ m ∈ _, _))

/-- Reference: `transferArchivedStreamRows`. -/
def transferArchivedStreamRows (args : TransferArgs) (aggregateIds : List String) :
    Except TransferError (StreamTables S) :=
  if t.ArchivedConflict args aggregateIds then .error .archivedStreamsPk
  else .ok { t with archived := t.archived.map (moveMarker args aggregateIds) }

/-- A back-dated seed write before its predecessor in time. Reference: `assertSeedTimeNotBeforePredecessor`. -/
def seedTimeError (ev : EventToAppend) : Option AppendError :=
  match ev.createdAt, t.events.find? fun r => Store.Precedes r ev with
  | some seedCreatedAt, some p =>
    if 0 < ev.expectedVersion ∧ seedCreatedAt < p.createdAt then
      some (.seedTimeOrder ev.aggregateType ev.aggregateId ev.newVersion seedCreatedAt p.createdAt)
    else none
  | _, _ => none

/-- `append` in a transaction that no other writer interferes with. Reference: `append`
(`event-store/event-store.ts`). -/
def append (now : ℕ) (ev : EventToAppend) : Except AppendError (StreamTables S) :=
  match t.seedTimeError ev with
  | some e => .error e
  | none =>
    if (ev.expectedVersion = 0 ∨ ∃ r ∈ t.events, Store.Precedes r ev) ∧ ¬ ∃ r ∈ t.events, Store.SameVersion r ev then
      if ∃ r ∈ t.events, Store.SameKey r ev then .error (mapEventUniqueViolation .idempotencyUq ev)
      else .ok { t with nextId := t.nextId + 1, events := t.events ++ [(ev.toNewEvent now).toRow t.nextId t.xid] }
    else .error (.versionConflict ev.aggregateId ev.expectedVersion (some (Store.streamMaxVersion t.events ev.stream)))

/-- The event that names an aggregate that has moved, on a stream of its own. -/
def transferredEvent (generateId : ℕ → String) (args : TransferArgs) : EventToAppend :=
  { tenantId := args.destinationTenantId, aggregateType := aggregateTransferStreamType,
    aggregateId := generateId t.nextId, expectedVersion := 0, type := aggregateTransferredEventType,
    idempotencyKey := none, createdAt := none }

/-- The loop over the moved aggregates. `generateId` gives the stream of the event that is written under an id. -/
def appendTransferred (generateId : ℕ → String) (now : ℕ) (args : TransferArgs) :
    StreamTables S → List String → Except TransferError (StreamTables S)
  | t, [] => .ok t
  | t, aggregateId :: aggregateIds =>
    match t.append now (t.transferredEvent generateId args) with
    | .error e => .error (.append e)
    | .ok t' =>
      appendTransferred generateId now args
        { t' with
          transferred := t'.transferred ++ [(t.nextId,
            ⟨args.aggregateType, aggregateId, args.sourceTenantId, args.destinationTenantId⟩)] }
        aggregateIds

/-- The tables after the transfer, and how many aggregates have moved. Reference: `transferAggregateStreams`. -/
def transferAggregateStreams (generateId : ℕ → String) (now : ℕ) (args : TransferArgs) :
    Except TransferError (StreamTables S × ℕ) :=
  if args.aggregateIds.length = 0 then .ok (t, 0)
  else do
    let (t, movedAggregateIds) ← t.transferEventRows args
    if movedAggregateIds.length = 0 then return (t, 0)
    let t := t.deleteSnapshotsForAggregates args.sourceTenantId movedAggregateIds
    let t ← t.transferArchivedStreamRows args movedAggregateIds
    let t ← appendTransferred generateId now args t movedAggregateIds
    return (t, movedAggregateIds.length)

/-- What the transaction of the caller leaves, which an error rolls back. -/
def afterTransfer (generateId : ℕ → String) (now : ℕ) (args : TransferArgs) : StreamTables S :=
  match t.transferAggregateStreams generateId now args with
  | .ok (t', _) => t'
  | .error _ => t

/-! ## What a transfer does -/

/-- What every store keeps: the ids ascend, every stream is contiguous, and a stream has one marker. -/
structure WF : Prop where
  sorted : t.events.Pairwise fun a b => a.id < b.id
  contiguous : ∀ stream, Contiguous (Store.streamVersions t.events stream)
  markers : (t.archived.map (·.stream)).Nodup

/-- An event that expects the current version of the stream can be appended. -/
def Appendable (stream : String × String) : Prop :=
  ∀ (now : ℕ) (ev : EventToAppend), ev.stream = stream →
    ev.expectedVersion = Store.streamMaxVersion t.events stream → ev.idempotencyKey = none → ev.createdAt = none →
    ∃ t', t.append now ev = .ok t'

/-- The aggregate's stream in the source is of the moved type, like its marker, and the destination has no marker for
it. -/
structure Whole (args : TransferArgs) (aggregateId : String) : Prop where
  apart : args.sourceTenantId ≠ args.destinationTenantId
  typed : ∀ r ∈ t.streamRows (args.sourceTenantId, aggregateId), r.aggregateType = args.aggregateType
  marker : ∀ m ∈ t.archived, m.stream = (args.sourceTenantId, aggregateId) → m.aggregateType = args.aggregateType
  clear : ¬ t.IsStreamArchived (args.destinationTenantId, aggregateId)

/-- Every stream that the transfer takes events of moves as a whole. -/
def WholeStreams (args : TransferArgs) : Prop := ∀ aggregateId ∈ t.movedAggregateIds args, t.Whole args aggregateId

/-- The stream is one of those between which the transfer moves events. -/
def Touched (args : TransferArgs) (stream : String × String) : Prop :=
  ∃ aggregateId ∈ t.movedAggregateIds args,
    stream = (args.sourceTenantId, aggregateId) ∨ stream = (args.destinationTenantId, aggregateId)

/-- The streams that have moved are in the destination as they were in the source, with their markers, and all others
are as they were. -/
structure StreamsMoved (t t' : StreamTables S) (args : TransferArgs) : Prop where
  destination : ∀ aggregateId ∈ t.movedAggregateIds args,
    t'.streamRows (args.destinationTenantId, aggregateId) =
      (t.streamRows (args.sourceTenantId, aggregateId)).map fun r => { r with tenantId := args.destinationTenantId }
  source : ∀ aggregateId ∈ t.movedAggregateIds args, t'.streamRows (args.sourceTenantId, aggregateId) = []
  others : ∀ stream, ¬ t.Touched args stream → t.streamRows stream ≠ [] → t'.streamRows stream = t.streamRows stream
  archived : ∀ aggregateId ∈ t.movedAggregateIds args,
    (t'.IsStreamArchived (args.destinationTenantId, aggregateId) ↔
      t.IsStreamArchived (args.sourceTenantId, aggregateId)) ∧
    ¬ t'.IsStreamArchived (args.sourceTenantId, aggregateId)
  archivedOthers : ∀ stream, ¬ t.Touched args stream → (t'.IsStreamArchived stream ↔ t.IsStreamArchived stream)
  snapshots : ∀ row ∈ t'.snapshots, row.tenantId = args.sourceTenantId → row.aggregateId ∉ t.movedAggregateIds args
  contiguous : ∀ stream, Contiguous (Store.streamVersions t'.events stream)
  appendable : ∀ stream, t'.Appendable stream

/-- The events of the moved type are in the destination, in the same order, and those of other types stay; one event
names each aggregate that has moved. -/
structure TypeMoved (t t' : StreamTables S) (args : TransferArgs) : Prop where
  events : ∃ markers, t'.events = t.events.map (t.transferOf args).moveRow ++ markers ∧
    markers.length = (t.movedAggregateIds args).length ∧
    ∀ r ∈ markers, r.tenantId = args.destinationTenantId ∧ r.aggregateType = aggregateTransferStreamType ∧
      r.type = aggregateTransferredEventType ∧ r.version = 1
  transferred : (t'.transferred.drop t.transferred.length).map (·.2) = (t.movedAggregateIds args).map fun aggregateId =>
    ⟨args.aggregateType, aggregateId, args.sourceTenantId, args.destinationTenantId⟩
  archived : t'.archived = t.archived.map (moveMarker args (t.movedAggregateIds args))
  snapshots : t'.snapshots = t.snapshots.filter fun row =>
    ¬ (row.tenantId = args.sourceTenantId ∧ row.aggregateId ∈ t.movedAggregateIds args)

/-! ## The statements, one by one -/

section
variable {t t' : StreamTables S} {args : TransferArgs} {generateId : ℕ → String} {now : ℕ} {ev : EventToAppend}
  {r : EventRow} {m : ArchivedStreamRow} {stream : String × String} {aggregateId : String} {aggregateIds : List String}
  {markers : List EventRow}

theorem mem_streamRows : r ∈ t.streamRows stream ↔ r ∈ t.events ∧ r.stream = stream := by
  simp [streamRows]

theorem mem_movableRows : r ∈ t.movableRows args ↔ r ∈ t.events ∧ r.tenantId = args.sourceTenantId ∧
    r.aggregateType = args.aggregateType ∧ r.aggregateId ∈ args.aggregateIds := by
  simp [movableRows]

theorem mem_movedAggregateIds :
    aggregateId ∈ t.movedAggregateIds args ↔ ∃ r ∈ t.movableRows args, r.aggregateId = aggregateId := by
  simp [movedAggregateIds]

theorem streamVersions_eq : Store.streamVersions t.events stream = (t.streamRows stream).map (·.version) := rfl

/-- In a store the update moves a row just when its statement has found it. -/
theorem WF.id_mem_transferOf (h : t.WF) (hr : r ∈ t.events) :
    r.id ∈ (t.transferOf args).ids ↔ r ∈ t.movableRows args := by
  constructor
  · intro hid
    obtain ⟨r', hr', he⟩ := List.mem_map.1 hid
    have hinj := List.inj_on_of_nodup_map (List.pairwise_map.2 (h.sorted.imp Nat.ne_of_lt))
      (mem_movableRows.1 hr').1 hr he
    exact hinj ▸ hr'
  · exact List.mem_map_of_mem

/-- A stream that has events has one of version one. -/
theorem exists_first (hc : Contiguous (Store.streamVersions t.events stream)) (hne : t.streamRows stream ≠ []) :
    ∃ r ∈ t.events, r.stream = stream ∧ r.version = 1 := by
  have hpos : 0 < (t.streamRows stream).length := List.length_pos_iff.2 hne
  have hone : (1 : ℤ) ∈ Store.streamVersions t.events stream := by
    refine hc.mem_iff.2 ⟨le_rfl, ?_⟩
    rw [streamVersions_eq, List.length_map]
    exact_mod_cast hpos
  obtain ⟨r, hr, hv⟩ := List.mem_map.1 hone
  exact ⟨r, (mem_streamRows.1 hr).1, (mem_streamRows.1 hr).2, hv⟩

/-- An append adds the event at the end of its stream. -/
theorem append_spec (h : t.append now ev = .ok t') :
    t' = { t with
      nextId := t.nextId + 1, events := t.events ++ [(ev.toNewEvent now).toRow t.nextId t.xid] } ∧
    (ev.expectedVersion = 0 ∨ ∃ r ∈ t.events, Store.Precedes r ev) ∧ ¬ ∃ r ∈ t.events, Store.SameVersion r ev := by
  unfold append at h
  split at h
  · cases h
  · split at h
    · next hgate =>
      split at h
      · cases h
      · exact ⟨(Except.ok.inj h).symm, hgate⟩
    · cases h

/-- An append leaves every stream contiguous. -/
theorem append_contiguous (hc : ∀ stream, Contiguous (Store.streamVersions t.events stream))
    (h : t.append now ev = .ok t') : ∀ stream, Contiguous (Store.streamVersions t'.events stream) := by
  obtain ⟨rfl, hgate, hfree⟩ := append_spec h
  intro stream
  have hcs := hc stream
  by_cases hs : ev.stream = stream
  · have hexpected : ev.expectedVersion = (Store.streamVersions t.events stream).length := by
      have hnot : ev.newVersion ∉ Store.streamVersions t.events stream := fun hv => by
        obtain ⟨r, hr, hv⟩ := List.mem_map.1 hv
        obtain ⟨hr, hrs⟩ := List.mem_filter.1 hr
        exact hfree ⟨r, hr, (of_decide_eq_true hrs).trans hs.symm, hv⟩
      have hmem : ev.expectedVersion = 0 ∨ ev.expectedVersion ∈ Store.streamVersions t.events stream :=
        hgate.imp_right fun ⟨r, hr, hrs, hv⟩ =>
          hv ▸ List.mem_map_of_mem (List.mem_filter.2 ⟨hr, decide_eq_true (hrs.trans hs)⟩)
      rw [hcs.mem_iff] at hnot hmem
      unfold EventToAppend.newVersion at hnot
      omega
    have hrow : Store.streamVersions (t.events ++ [(ev.toNewEvent now).toRow t.nextId t.xid]) stream =
        Store.streamVersions t.events stream ++ [((Store.streamVersions t.events stream).length : ℤ) + 1] := by
      rw [← hexpected]
      simp [Store.streamVersions, List.filter_append, hs, EventToAppend.newVersion]
    rw [hrow]
    exact hcs.concat
  · have hrow : Store.streamVersions (t.events ++ [(ev.toNewEvent now).toRow t.nextId t.xid]) stream =
        Store.streamVersions t.events stream := by
      simp [Store.streamVersions, List.filter_append, hs]
    rwa [hrow]

/-- To a contiguous stream an event can be appended. -/
theorem appendable_of_contiguous (hc : Contiguous (Store.streamVersions t.events stream)) : t.Appendable stream := by
  intro now ev hs hexpected hkey hcreated
  have hmax : ev.expectedVersion = (Store.streamVersions t.events stream).length := by
    rw [hexpected]
    exact hc.max?_getD
  have hseed : t.seedTimeError ev = none := by
    unfold seedTimeError
    rw [hcreated]
  have hgate : ev.expectedVersion = 0 ∨ ∃ r ∈ t.events, Store.Precedes r ev := by
    rcases Nat.eq_zero_or_pos (Store.streamVersions t.events stream).length with hz | hpos
    · left
      rw [hmax, hz, Nat.cast_zero]
    · right
      have hmem : ev.expectedVersion ∈ Store.streamVersions t.events stream := hc.mem_iff.2 (by omega)
      obtain ⟨r, hr, hv⟩ := List.mem_map.1 hmem
      obtain ⟨hr, hrs⟩ := List.mem_filter.1 hr
      exact ⟨r, hr, (of_decide_eq_true hrs).trans hs.symm, hv⟩
  have hfree : ¬ ∃ r ∈ t.events, Store.SameVersion r ev := by
    rintro ⟨r, hr, hrs, hv⟩
    have hmem : ev.newVersion ∈ Store.streamVersions t.events stream :=
      hv ▸ List.mem_map_of_mem (List.mem_filter.2 ⟨hr, decide_eq_true (hrs.trans hs)⟩)
    have := hc.mem_iff.1 hmem
    unfold EventToAppend.newVersion at this
    omega
  have hfreeKey : ¬ ∃ r ∈ t.events, Store.SameKey r ev := by
    rintro ⟨r, -, -, hsome, -⟩
    rw [hkey] at hsome
    cases hsome
  refine ⟨{ t with nextId := t.nextId + 1, events := t.events ++ [(ev.toNewEvent now).toRow t.nextId t.xid] }, ?_⟩
  unfold append
  rw [hseed]
  simp only [hgate, hfree, not_false_iff, and_self, if_true, hfreeKey, if_false]

/-- What the loop over the moved aggregates adds. -/
structure Transferred (args : TransferArgs) (t t' : StreamTables S) (aggregateIds : List String)
    (markers : List EventRow) : Prop where
  events : t'.events = t.events ++ markers
  length : markers.length = aggregateIds.length
  marker : ∀ r ∈ markers, r.tenantId = args.destinationTenantId ∧ r.aggregateType = aggregateTransferStreamType ∧
    r.type = aggregateTransferredEventType ∧ r.version = 1
  /-- A transfer event starts its stream. -/
  fresh : ∀ r ∈ markers, ∀ r' ∈ t.events, ¬ (r'.stream = r.stream ∧ r'.version = 1)
  transferred : t'.transferred.map (·.2) = t.transferred.map (·.2) ++ aggregateIds.map fun aggregateId =>
    ⟨args.aggregateType, aggregateId, args.sourceTenantId, args.destinationTenantId⟩
  archived : t'.archived = t.archived
  snapshots : t'.snapshots = t.snapshots
  contiguous : (∀ stream, Contiguous (Store.streamVersions t.events stream)) →
    ∀ stream, Contiguous (Store.streamVersions t'.events stream)

theorem appendTransferred_spec
    (h : appendTransferred generateId now args t aggregateIds = .ok t') :
    ∃ markers, Transferred args t t' aggregateIds markers := by
  induction aggregateIds generalizing t with
  | nil =>
    cases h
    refine ⟨[], (List.append_nil _).symm, rfl, fun _ hr => (nomatch hr), fun _ hr => (nomatch hr), ?_, rfl, rfl, id⟩
    rw [List.map_nil, List.append_nil]
  | cons aggregateId aggregateIds ih =>
    unfold appendTransferred at h
    split at h
    · cases h
    · next t₁ happ =>
      obtain ⟨markers, hm⟩ := ih h
      have hc := fun hc => append_contiguous hc happ
      obtain ⟨ht₁, -, hfree⟩ := append_spec happ
      subst ht₁
      refine ⟨((t.transferredEvent generateId args).toNewEvent now).toRow t.nextId t.xid :: markers, ?_, ?_, ?_, ?_, ?_,
        hm.archived, hm.snapshots, fun h => hm.contiguous (hc h)⟩
      · rw [hm.events]
        exact List.append_assoc ..
      · rw [List.length_cons, List.length_cons, hm.length]
      · intro r hr
        rcases List.mem_cons.1 hr with rfl | hr
        · exact ⟨rfl, rfl, rfl, rfl⟩
        · exact hm.marker r hr
      · intro r hr r' hr' hsame
        rcases List.mem_cons.1 hr with rfl | hr
        · exact hfree ⟨r', hr', hsame⟩
        · exact hm.fresh r hr r' (List.mem_append_left _ hr') hsame
      · rw [hm.transferred, List.map_append, List.append_assoc]
        rfl

theorem transferOf_ids_of_nil (h : t.movedAggregateIds args = []) : (t.transferOf args).ids = [] := by
  have hrows : t.movableRows args = [] := by
    rw [List.eq_nil_iff_forall_not_mem]
    intro r hr
    have hmem := mem_movedAggregateIds.2 ⟨r, hr, rfl⟩
    rw [h] at hmem
    cases hmem
  rw [transferOf, hrows, List.map_nil]

theorem map_moveRow_of_nil {o : OpenTransfer} {rows : List EventRow} (h : o.ids = []) : rows.map o.moveRow = rows := by
  refine (List.map_congr_left fun r _ => ?_).trans (List.map_id _)
  rw [OpenTransfer.moveRow, h, if_neg List.not_mem_nil, id]

/-- The statements of a transfer that succeeds. -/
theorem transferAggregateStreams_ok {n : ℕ} (h : t.transferAggregateStreams generateId now args = .ok (t', n)) :
    n = (t.movedAggregateIds args).length ∧
      ((t.movedAggregateIds args = [] ∧ t' = t) ∨
        ¬ t.EventsConflict args ∧ ¬ t.ArchivedConflict args (t.movedAggregateIds args) ∧
          ∃ markers, Transferred args
            { t with
              events := t.events.map (t.transferOf args).moveRow
              archived := t.archived.map (moveMarker args (t.movedAggregateIds args))
              snapshots := t.snapshots.filter fun row =>
                ¬ (row.tenantId = args.sourceTenantId ∧ row.aggregateId ∈ t.movedAggregateIds args) }
            t' (t.movedAggregateIds args) markers) := by
  unfold transferAggregateStreams at h
  split at h
  · next hlen =>
    have hids : args.aggregateIds = [] := List.length_eq_zero_iff.1 hlen
    have hnone : t.movedAggregateIds args = [] := by
      simp [movedAggregateIds, movableRows, hids]
    cases h
    exact ⟨by rw [hnone]; rfl, .inl ⟨hnone, rfl⟩⟩
  · unfold transferEventRows at h
    split at h
    · cases h
    · next hconflict =>
      simp only [bind, Except.bind] at h
      split at h
      · next hlen =>
        have hnone := List.length_eq_zero_iff.1 hlen
        have hids := transferOf_ids_of_nil hnone
        obtain ⟨htables, hn⟩ := Prod.ext_iff.1 (Except.ok.inj h)
        refine ⟨by rw [hnone]; exact hn.symm, .inl ⟨hnone, htables.symm.trans ?_⟩⟩
        rw [map_moveRow_of_nil hids]
      · unfold transferArchivedStreamRows at h
        split at h
        · cases h
        · next t₁ harchived =>
          split at harchived
          · cases harchived
          · next hmarkers =>
            split at h
            · cases h
            · next t₂ happended =>
              cases harchived
              obtain ⟨htables, hn⟩ := Prod.ext_iff.1 (Except.ok.inj h)
              obtain ⟨markers, hm⟩ := appendTransferred_spec happended
              cases htables
              exact ⟨hn.symm, .inr ⟨hconflict, hmarkers, markers, hm⟩⟩

/-! ## The streams after the update -/

/-- The tables after the updates and the delete. -/
def updated (t : StreamTables S) (args : TransferArgs) : StreamTables S :=
  { t with
    events := t.events.map (t.transferOf args).moveRow
    archived := t.archived.map (moveMarker args (t.movedAggregateIds args))
    snapshots := t.snapshots.filter fun row =>
      ¬ (row.tenantId = args.sourceTenantId ∧ row.aggregateId ∈ t.movedAggregateIds args) }

theorem moveRow_of_movable (hr : r ∈ t.movableRows args) :
    (t.transferOf args).moveRow r = { r with tenantId := args.destinationTenantId } :=
  if_pos (List.mem_map_of_mem hr)

theorem WF.moveRow_of_not_movable (h : t.WF) (hr : r ∈ t.events) (hn : r ∉ t.movableRows args) :
    (t.transferOf args).moveRow r = r :=
  if_neg fun hid => hn ((h.id_mem_transferOf hr).1 hid)

/-- What is left of a stream are the events of the updated table that are in it. -/
theorem streamRows_updated : (t.updated args).streamRows stream =
    (t.events.filter fun r => ((t.transferOf args).moveRow r).stream = stream).map (t.transferOf args).moveRow :=
  List.filter_map

/-- The streams that the transfer does not touch are as they were. -/
theorem WF.streamRows_of_untouched (h : t.WF) (hn : ¬ t.Touched args stream) :
    (t.updated args).streamRows stream = t.streamRows stream := by
  have hmoved : ∀ r ∈ t.events, ((t.transferOf args).moveRow r).stream = stream ↔ r.stream = stream := by
    intro r hr
    by_cases hm : r ∈ t.movableRows args
    · have hid := mem_movedAggregateIds.2 ⟨r, hm, rfl⟩
      have htenant := (mem_movableRows.1 hm).2.1
      rw [moveRow_of_movable hm]
      refine iff_of_false (fun hs => hn ⟨_, hid, .inr hs.symm⟩) fun hs => hn ⟨_, hid, .inl ?_⟩
      rw [← hs, ← htenant]
      rfl
    · rw [h.moveRow_of_not_movable hr hm]
  rw [streamRows_updated, List.filter_congr fun r hr => decide_eq_decide.2 (hmoved r hr)]
  refine (List.map_congr_left fun r hr => ?_).trans (List.map_id _)
  obtain ⟨hr, hs⟩ := mem_streamRows.1 hr
  refine h.moveRow_of_not_movable hr fun hm => hn ⟨_, mem_movedAggregateIds.2 ⟨r, hm, rfl⟩, .inl ?_⟩
  rw [← hs, ← (mem_movableRows.1 hm).2.1]
  rfl

/-- A whole stream moves with all its events. -/
theorem Whole.movable (hw : t.Whole args aggregateId) (hid : aggregateId ∈ t.movedAggregateIds args)
    (hr : r ∈ t.events) (hs : r.stream = (args.sourceTenantId, aggregateId)) : r ∈ t.movableRows args := by
  obtain ⟨r', hr', rfl⟩ := mem_movedAggregateIds.1 hid
  obtain ⟨htenant, hagg⟩ := Prod.ext_iff.1 hs
  have hagg : r.aggregateId = r'.aggregateId := hagg
  exact mem_movableRows.2 ⟨hr, htenant, hw.typed r (mem_streamRows.2 ⟨hr, hs⟩), hagg ▸ (mem_movableRows.1 hr').2.2.2⟩

theorem stream_of_movable (hr : r ∈ t.movableRows args) : r.stream = (args.sourceTenantId, r.aggregateId) := by
  rw [← (mem_movableRows.1 hr).2.1]
  rfl

/-- Where the update violates no index, the destination had no event of a whole stream. -/
theorem WF.destination_empty (h : t.WF) (hw : t.Whole args aggregateId) (hid : aggregateId ∈ t.movedAggregateIds args)
    (hfree : ¬ t.EventsConflict args) : t.streamRows (args.destinationTenantId, aggregateId) = [] := by
  by_contra hne
  obtain ⟨r', hr', rfl⟩ := mem_movedAggregateIds.1 hid
  have hsource : t.streamRows (args.sourceTenantId, r'.aggregateId) ≠ [] :=
    List.ne_nil_of_mem (mem_streamRows.2 ⟨(mem_movableRows.1 hr').1, stream_of_movable hr'⟩)
  obtain ⟨r, hr, hs, hv⟩ := exists_first (h.contiguous _) hsource
  obtain ⟨d, hd, hds, hdv⟩ := exists_first (h.contiguous _) hne
  have hm := hw.movable hid hr hs
  refine hfree ⟨r, hm, d, hd, fun he => ?_, .inl ⟨?_, ?_⟩⟩
  · have heq := List.inj_on_of_nodup_map (List.pairwise_map.2 (h.sorted.imp Nat.ne_of_lt)) hd hr he
    rw [heq, hs] at hds
    exact hw.apart (Prod.ext_iff.1 hds).1
  · rw [moveRow_of_movable hm, hds]
    exact congrArg (Prod.mk _) (Prod.ext_iff.1 hs).2
  · rw [moveRow_of_movable hm, hdv]
    exact hv

/-- The destination gets a whole stream as it was. -/
theorem WF.streamRows_destination (h : t.WF) (hw : t.Whole args aggregateId)
    (hid : aggregateId ∈ t.movedAggregateIds args) (hfree : ¬ t.EventsConflict args) :
    (t.updated args).streamRows (args.destinationTenantId, aggregateId) =
      (t.streamRows (args.sourceTenantId, aggregateId)).map
        fun r => { r with tenantId := args.destinationTenantId } := by
  have hempty := h.destination_empty hw hid hfree
  have hmoved : ∀ r ∈ t.events, ((t.transferOf args).moveRow r).stream = (args.destinationTenantId, aggregateId) ↔
      r.stream = (args.sourceTenantId, aggregateId) := by
    intro r hr
    constructor
    · intro hs
      by_cases hm : r ∈ t.movableRows args
      · rw [moveRow_of_movable hm] at hs
        rw [stream_of_movable hm]
        exact congrArg (Prod.mk _) (Prod.ext_iff.1 hs).2
      · rw [h.moveRow_of_not_movable hr hm] at hs
        exact absurd hempty (List.ne_nil_of_mem (mem_streamRows.2 ⟨hr, hs⟩))
    · intro hs
      rw [moveRow_of_movable (hw.movable hid hr hs)]
      exact congrArg (Prod.mk _) (Prod.ext_iff.1 hs).2
  rw [streamRows_updated, List.filter_congr fun r hr => decide_eq_decide.2 (hmoved r hr)]
  refine List.map_congr_left fun r hr => ?_
  obtain ⟨hr, hs⟩ := mem_streamRows.1 hr
  exact moveRow_of_movable (hw.movable hid hr hs)

/-- The source keeps nothing of a whole stream. -/
theorem WF.streamRows_source (h : t.WF) (hw : t.Whole args aggregateId) (hid : aggregateId ∈ t.movedAggregateIds args) :
    (t.updated args).streamRows (args.sourceTenantId, aggregateId) = [] := by
  rw [streamRows_updated, List.map_eq_nil_iff, List.filter_eq_nil_iff]
  intro r hr hs
  have hs := of_decide_eq_true hs
  by_cases hm : r ∈ t.movableRows args
  · rw [moveRow_of_movable hm] at hs
    exact hw.apart (Prod.ext_iff.1 hs).1.symm
  · rw [h.moveRow_of_not_movable hr hm] at hs
    exact hm (hw.movable hid hr hs)

/-- The update leaves every stream contiguous. -/
theorem WF.updated_contiguous (h : t.WF) (hw : t.WholeStreams args) (hfree : ¬ t.EventsConflict args) (stream) :
    Contiguous (Store.streamVersions (t.updated args).events stream) := by
  by_cases ht : t.Touched args stream
  · obtain ⟨aggregateId, hid, rfl | rfl⟩ := ht
    · rw [streamVersions_eq, h.streamRows_source (hw _ hid) hid]
      decide
    · rw [streamVersions_eq, h.streamRows_destination (hw _ hid) hid hfree, List.map_map]
      exact h.contiguous (args.sourceTenantId, aggregateId)
  · rw [streamVersions_eq, h.streamRows_of_untouched ht]
    exact h.contiguous stream

/-- The markers of whole streams follow them. -/
theorem WholeStreams.archived (hw : t.WholeStreams args) (hid : aggregateId ∈ t.movedAggregateIds args) :
    ((t.updated args).IsStreamArchived (args.destinationTenantId, aggregateId) ↔
      t.IsStreamArchived (args.sourceTenantId, aggregateId)) ∧
    ¬ (t.updated args).IsStreamArchived (args.sourceTenantId, aggregateId) := by
  have hwhole := hw _ hid
  refine ⟨⟨?_, ?_⟩, ?_⟩
  · rintro ⟨_, hm', hs⟩
    obtain ⟨m, hm, rfl⟩ := List.mem_map.1 hm'
    unfold moveMarker at hs
    split at hs
    · next hmoves => exact ⟨m, hm, Prod.ext hmoves.1 (Prod.ext_iff.1 hs).2⟩
    · exact absurd ⟨m, hm, hs⟩ hwhole.clear
  · rintro ⟨m, hm, hs⟩
    have hagg : m.aggregateId = aggregateId := (Prod.ext_iff.1 hs).2
    refine ⟨_, List.mem_map_of_mem hm, ?_⟩
    rw [moveMarker, if_pos ⟨(Prod.ext_iff.1 hs).1, hwhole.marker m hm hs, hagg ▸ hid⟩]
    exact congrArg (Prod.mk _) hagg
  · rintro ⟨_, hm', hs⟩
    obtain ⟨m, hm, rfl⟩ := List.mem_map.1 hm'
    unfold moveMarker at hs
    split at hs
    · exact hwhole.apart (Prod.ext_iff.1 hs).1.symm
    · next hnot =>
      have hagg : m.aggregateId = aggregateId := (Prod.ext_iff.1 hs).2
      exact hnot ⟨(Prod.ext_iff.1 hs).1, hwhole.marker m hm hs, hagg ▸ hid⟩

/-- Other markers stay. -/
theorem archived_of_untouched (hn : ¬ t.Touched args stream) :
    (t.updated args).IsStreamArchived stream ↔ t.IsStreamArchived stream := by
  constructor
  · rintro ⟨_, hm', hs⟩
    obtain ⟨m, hm, rfl⟩ := List.mem_map.1 hm'
    unfold moveMarker at hs
    split at hs
    · next hmoves => exact absurd ⟨m.aggregateId, hmoves.2.2, .inr hs.symm⟩ hn
    · exact ⟨m, hm, hs⟩
  · rintro ⟨m, hm, hs⟩
    refine ⟨_, List.mem_map_of_mem hm, ?_⟩
    rw [moveMarker, if_neg]
    · exact hs
    · intro hmoves
      refine hn ⟨m.aggregateId, hmoves.2.2, .inl ?_⟩
      rw [← hs, ← hmoves.1]
      rfl

/-! ## Transfers -/

/-- A transfer moves the events of its type. -/
theorem typeMoved_of_ok {n : ℕ} (h : t.transferAggregateStreams generateId now args = .ok (t', n)) :
    TypeMoved t t' args := by
  rcases (transferAggregateStreams_ok h).2 with ⟨hnone, rfl⟩ | ⟨-, -, markers, hm⟩
  · refine ⟨⟨[], ?_, ?_, fun _ hr => (nomatch hr)⟩, ?_, ?_, ?_⟩
    · rw [map_moveRow_of_nil (transferOf_ids_of_nil hnone), List.append_nil]
    · rw [hnone]
      rfl
    · rw [hnone, List.drop_length]
      rfl
    · refine ((List.map_congr_left fun m _ => ?_).trans (List.map_id _)).symm
      rw [hnone, moveMarker, if_neg fun hmoves => List.not_mem_nil hmoves.2.2, id]
    · rw [hnone]
      simp
  · refine ⟨⟨markers, hm.events, hm.length, hm.marker⟩, ?_, hm.archived, hm.snapshots⟩
    rw [List.map_drop, hm.transferred, List.drop_left' (List.length_map _)]

/-- In a table that the transfer leaves as it is, nothing has moved. -/
theorem WF.streamsMoved_of_none (h : t.WF) (hnone : t.movedAggregateIds args = []) : StreamsMoved t t args where
  destination _ hid := by simp [hnone] at hid
  source _ hid := by simp [hnone] at hid
  others _ _ _ := rfl
  archived _ hid := by simp [hnone] at hid
  archivedOthers _ _ := Iff.rfl
  snapshots _ _ _ := by simp [hnone]
  contiguous := h.contiguous
  appendable stream := appendable_of_contiguous (h.contiguous stream)

/-- The transfer events are on none of the streams that had events before. -/
theorem Transferred.streamRows (hm : Transferred args t t' aggregateIds markers)
    (hc : Contiguous (Store.streamVersions t.events stream)) (hne : t.streamRows stream ≠ []) :
    t'.streamRows stream = t.streamRows stream := by
  obtain ⟨first, hfirst, hs, hv⟩ := exists_first hc hne
  have hnone : markers.filter (·.stream = stream) = [] := by
    rw [List.filter_eq_nil_iff]
    intro r hr hrs
    exact hm.fresh r hr first hfirst ⟨hs.trans (of_decide_eq_true hrs).symm, hv⟩
  rw [StreamTables.streamRows, hm.events, List.filter_append, hnone, List.append_nil]
  rfl

/-- Nor are they in the source. -/
theorem Transferred.source_nil (hm : Transferred args t t' aggregateIds markers)
    (hapart : args.sourceTenantId ≠ args.destinationTenantId)
    (hnil : t.streamRows (args.sourceTenantId, aggregateId) = []) :
    t'.streamRows (args.sourceTenantId, aggregateId) = [] := by
  have hnone : markers.filter (·.stream = (args.sourceTenantId, aggregateId)) = [] := by
    rw [List.filter_eq_nil_iff]
    intro r hr hrs
    have htenant : r.tenantId = args.sourceTenantId := (Prod.ext_iff.1 (of_decide_eq_true hrs)).1
    exact hapart (htenant.symm.trans (hm.marker r hr).1)
  rw [StreamTables.streamRows, hm.events, List.filter_append, hnone, List.append_nil]
  exact hnil

/-- Whole streams move as they are. -/
theorem WF.streamsMoved_of_whole {n : ℕ} (h : t.WF) (hw : t.WholeStreams args)
    (hok : t.transferAggregateStreams generateId now args = .ok (t', n)) : StreamsMoved t t' args := by
  rcases (transferAggregateStreams_ok hok).2 with ⟨hnone, rfl⟩ | ⟨hfree, -, markers, hm⟩
  · exact h.streamsMoved_of_none hnone
  have hm : Transferred args (t.updated args) t' (t.movedAggregateIds args) markers := hm
  have hupdated := h.updated_contiguous hw hfree
  have hcontiguous := hm.contiguous hupdated
  have harchived : ∀ stream, t'.IsStreamArchived stream ↔ (t.updated args).IsStreamArchived stream := fun stream => by
    unfold IsStreamArchived
    rw [hm.archived]
  refine ⟨fun aggregateId hid => ?_, fun aggregateId hid => ?_, fun stream hn hne => ?_, fun aggregateId hid => ?_,
    fun stream hn => (harchived _).trans (archived_of_untouched hn), fun row hrow hsource hid => ?_, hcontiguous,
    fun stream => appendable_of_contiguous (hcontiguous stream)⟩
  · have hdest := h.streamRows_destination (hw _ hid) hid hfree
    rw [← hdest]
    refine hm.streamRows (hupdated _) ?_
    obtain ⟨r, hr, rfl⟩ := mem_movedAggregateIds.1 hid
    rw [hdest, ne_eq, List.map_eq_nil_iff]
    exact List.ne_nil_of_mem (mem_streamRows.2 ⟨(mem_movableRows.1 hr).1, stream_of_movable hr⟩)
  · exact hm.source_nil (hw _ hid).apart (h.streamRows_source (hw _ hid) hid)
  · have hsame := h.streamRows_of_untouched hn
    rw [← hsame]
    exact hm.streamRows (hupdated _) (hsame ▸ hne)
  · rw [harchived, harchived]
    exact hw.archived hid
  · rw [hm.snapshots] at hrow
    exact of_decide_eq_true (List.mem_filter.1 hrow).2 ⟨hsource, hid⟩

/-- The streams move as they are, just when they are whole. -/
theorem WF.streamsMoved_iff {n : ℕ} (h : t.WF)
    (hok : t.transferAggregateStreams generateId now args = .ok (t', n)) :
    StreamsMoved t t' args ↔ t.WholeStreams args := by
  refine ⟨fun hs aggregateId hid => ?_, fun hw => h.streamsMoved_of_whole hw hok⟩
  rcases (transferAggregateStreams_ok hok).2 with ⟨hnone, -⟩ | ⟨-, hmarkers, markers, hm⟩
  · simp [hnone] at hid
  obtain ⟨r₀, hr₀, rfl⟩ := mem_movedAggregateIds.1 hid
  have hsource := hs.source _ hid
  have hkept : ∀ r ∈ t.events, r.stream = (args.sourceTenantId, r₀.aggregateId) → r ∈ t.movableRows args := by
    intro r hr hrs
    by_contra hn
    refine absurd hsource (List.ne_nil_of_mem (mem_streamRows.2 ⟨?_, hrs⟩))
    rw [hm.events]
    exact List.mem_append_left _ (List.mem_map.2 ⟨r, hr, h.moveRow_of_not_movable hr hn⟩)
  have hapart : args.sourceTenantId ≠ args.destinationTenantId := fun he => by
    have hdest := hs.destination _ hid
    rw [← he, hsource] at hdest
    exact absurd (List.map_eq_nil_iff.1 hdest.symm)
      (List.ne_nil_of_mem (mem_streamRows.2 ⟨(mem_movableRows.1 hr₀).1, stream_of_movable hr₀⟩))
  have hstays : ∀ m ∈ t.archived, ¬ MarkerMoves args (t.movedAggregateIds args) m → t'.IsStreamArchived m.stream := by
    intro m hmem hnot
    refine ⟨m, ?_, rfl⟩
    rw [hm.archived]
    exact List.mem_map.2 ⟨m, hmem, if_neg hnot⟩
  have hmarker : ∀ m ∈ t.archived, m.stream = (args.sourceTenantId, r₀.aggregateId) →
      m.aggregateType = args.aggregateType := by
    intro m hmem hms
    by_contra hne
    refine (hs.archived _ hid).2 ?_
    rw [← hms]
    exact hstays m hmem fun hmoves => hne hmoves.2.1
  refine ⟨hapart, fun r hr => ?_, hmarker, ?_⟩
  · obtain ⟨hr, hrs⟩ := mem_streamRows.1 hr
    exact (mem_movableRows.1 (hkept r hr hrs)).2.2.1
  · rintro ⟨d, hd, hds⟩
    have hnot : ¬ MarkerMoves args (t.movedAggregateIds args) d := fun hmoves =>
      hapart (hmoves.1.symm.trans (Prod.ext_iff.1 hds).1)
    have harchived := hstays d hd hnot
    rw [hds] at harchived
    -- then the source had a marker too, and moving it was a conflict
    obtain ⟨m, hmem, hms⟩ := (hs.archived _ hid).1.1 harchived
    have hagg : m.aggregateId = r₀.aggregateId := (Prod.ext_iff.1 hms).2
    refine hmarkers ⟨m, hmem, ⟨(Prod.ext_iff.1 hms).1, hmarker m hmem hms, hagg ▸ hid⟩, d, hd, ?_, ?_⟩
    · rintro rfl
      exact hapart ((Prod.ext_iff.1 hms).1.symm.trans (Prod.ext_iff.1 hds).1)
    · rw [hds, hagg]

/-- A transfer leaves everything unchanged or moves the events of its type; and the streams move as they are, just when
they are whole. -/
theorem streams_of_transfer (h : t.WF) (generateId : ℕ → String) (now : ℕ) (args : TransferArgs) :
    (∃ e, t.transferAggregateStreams generateId now args = .error e ∧ t.afterTransfer generateId now args = t) ∨
      ∃ t', t.transferAggregateStreams generateId now args = .ok (t', (t.movedAggregateIds args).length) ∧
        t.afterTransfer generateId now args = t' ∧ TypeMoved t t' args ∧
          (StreamsMoved t t' args ↔ t.WholeStreams args) := by
  unfold afterTransfer
  cases hok : t.transferAggregateStreams generateId now args with
  | error e => exact .inl ⟨e, rfl, rfl⟩
  | ok p =>
    obtain ⟨t', n⟩ := p
    have hn := (transferAggregateStreams_ok hok).1
    subst hn
    exact .inr ⟨t', rfl, rfl, typeMoved_of_ok hok, h.streamsMoved_iff hok⟩

end

/-- A stream of two events, of which the second has the given type, in a table of their own. -/
def twoEvents (secondType : String) : StreamTables Unit where
  xid := 1
  nextId := 3
  events := [{ id := 1, xid := 0, tenantId := "tenant-a", aggregateType := "order", aggregateId := "a", version := 1,
               type := "order.created", createdAt := 0, idempotencyKey := none },
             { id := 2, xid := 0, tenantId := "tenant-a", aggregateType := secondType, aggregateId := "a", version := 2,
               type := "changed", createdAt := 0, idempotencyKey := none }]
  archived := [⟨"tenant-a", "a", "order"⟩]
  snapshots := []
  transferred := []

theorem twoEvents_wf (secondType : String) : (twoEvents secondType).WF := by
  refine ⟨by simp [twoEvents], fun stream => ?_, by simp [twoEvents]⟩
  by_cases hs : stream = ("tenant-a", "a")
  · subst hs
    exact (by decide : Contiguous [1, 2])
  · have hnone : Store.streamVersions (twoEvents secondType).events stream = [] := by
      simp [Store.streamVersions, twoEvents, EventRow.stream, Ne.symm hs]
    rw [hnone]
    decide

/-- The transfer of the orders of one aggregate. -/
def transferOrder : TransferArgs := ⟨"tenant-a", "tenant-b", "order", ["a"]⟩

/-- An archived stream of one type moves with its marker. -/
theorem streams_of_transfer_order : ∃ t', (twoEvents "order").transferAggregateStreams (fun _ => "marker") 0
    transferOrder = .ok (t', 1) ∧ StreamsMoved (twoEvents "order") t' transferOrder := by
  have hw : (twoEvents "order").WholeStreams transferOrder := by
    intro aggregateId hid
    have hid : aggregateId = "a" := by simpa [movedAggregateIds, movableRows, twoEvents, transferOrder] using hid
    subst hid
    exact ⟨by decide, by decide, by decide, by decide⟩
  rcases streams_of_transfer (twoEvents_wf "order") (fun _ => "marker") 0 transferOrder with
    ⟨e, he, -⟩ | ⟨t', ht', -, -, hiff⟩
  · have hok : ((twoEvents "order").transferAggregateStreams (fun _ => "marker") 0 transferOrder).toBool = true := by
      decide
    rw [he] at hok
    cases hok
  · exact ⟨t', ht', hiff.2 hw⟩

/-- Of a stream of two types one event moves, and what stays begins with its second version. -/
theorem not_streamsMoved : ∃ t', (twoEvents "invoice").WF ∧
    (twoEvents "invoice").transferAggregateStreams (fun _ => "marker") 0 transferOrder = .ok (t', 1) ∧
    Store.streamVersions t'.events ("tenant-a", "a") = [2] ∧ ¬ StreamsMoved (twoEvents "invoice") t' transferOrder := by
  refine ⟨_, twoEvents_wf "invoice", rfl, by decide, fun h => ?_⟩
  exact absurd (h.contiguous ("tenant-a", "a")) (by decide)

end StreamTables

/-- The tables that a transaction reads, archived streams with types. -/
def Store.tables {S : Type*} (s : Store) (types : String × String → String) (snapshots : List (SnapshotRow S)) :
    StreamTables S where
  xid := s.log.xacts.nextXid
  nextId := s.log.nextId
  events := s.log.visibleRows
  archived := s.archived.dedup.map fun k => ⟨k.1, k.2, types k⟩
  snapshots := snapshots
  transferred := []

/-- Every run keeps what a transfer needs of them. -/
theorem Store.tables_wf {S : Type*} {asc : Prop} {s : Store} (types) (snapshots : List (SnapshotRow S))
    (h : StreamInv asc s) (hi : SessionInv s) : (s.tables types snapshots).WF where
  sorted := hi.log.visibleRows_sorted
  contiguous := h.committed_contiguous hi
  markers := by
    rw [Store.tables, List.map_map]
    exact (List.map_id _).symm ▸ s.archived.nodup_dedup

end Kumiko
