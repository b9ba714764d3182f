import Kumiko.Files.StorageCounters
import Kumiko.Library.History
import Kumiko.Library.KeyedRows
import Kumiko.Pipeline.DeliveryOrder
import Mathlib.Algebra.Order.Monoid.Prod

/-!
# Tenant storage usage

The projection that counts each tenant's stored bytes and files, among the verbs of fileRefs and the handovers
of files to other tenants, statement by statement. The batches of one handover commit together and are taken as
one; where no consumer row is there, it locks nothing. The handlers of the projection add to the counters on the
connection pool, outside of the transaction of their turn. Five kinds of steps part the counters from the rows,
and without them the counters are exact (`usageExact_of_run`).
-/

namespace Kumiko

open KeyedSums Transition

/-- The columns of `file_refs` that the counters depend on. Reference: `fileRefEntity`. -/
structure StoredFileRef where
  id : String
  tenantId : String
  size : ℕ
  isDeleted : Bool

def StoredFileRef.state (f : StoredFileRef) : FileRefState := if f.isDeleted then .deleted f.size else .live f.size

/-- A verb that has appended its event, in a transaction in progress. -/
structure FileRefVerb where
  xid : ℕ
  eventId : ℕ
  fileId : String
  tenantId : String
  event : FileRefEvent

/-- What a verb is to do. -/
inductive FileRefChange
  | create (tenantId : String) (size : ℕ)
  | delete
  | restore
  | forget

/-- A handover that has not committed: the files and the events it takes, the share it moves, and whether it has locked
the consumer row. -/
structure FileHandover where
  source : String
  destination : String
  fileIds : List String
  eventIds : List ℕ
  share : ℤ × ℤ
  locked : Bool
  deriving DecidableEq

/-- The event log with the fileRef events by their ids, the rows, the verbs and the handovers in progress, the consumer
of the projection with the events that its turn has applied, and the counters. -/
structure StorageWorld where
  log : Log
  payload : ℕ → Option FileRefEvent
  fileRefs : List StoredFileRef
  verbs : List FileRefVerb
  registered : Bool
  slot : ConsumerSlot
  applied : List EventRow
  usage : StorageUsage
  handovers : List FileHandover

/-- The steps of the writers, of the turns of the projection and of the handovers. -/
inductive StorageAct
  /-- A step of a transaction; an insert is of another event. -/
  | writer (a : LogAct)
  /-- A verb appends its event under an id that its transaction has drawn. -/
  | verb (xid id : ℕ) (fileId : String) (change : FileRefChange)
  /-- The consumer row is inserted. -/
  | register
  | turn (a : TurnAct)
  /-- A handover of the files of these that the source has. -/
  | handOver (source destination : String) (fileIds : List String)
  | commitHandOver (h : FileHandover)
  | abortHandOver (h : FileHandover)

/-- The tenant and the event of a verb, for the row it has read. -/
def FileRefChange.event (row : Option StoredFileRef) : FileRefChange → Option (String × FileRefEvent)
  | .create tenantId size => if row.isNone then some (tenantId, .created size) else none
  | .delete => row.bind fun f => if f.isDeleted then none else some (f.tenantId, .deleted f.size)
  | .restore => row.bind fun f => if f.isDeleted then some (f.tenantId, .restored f.size) else none
  | .forget => row.map fun f => (f.tenantId, .forgotten)

/-- The rows after a verb; an update finds the row by its id. Reference: `applyEntityEvent`. -/
def applyEntityEvent (fileRefs : List StoredFileRef) (v : FileRefVerb) : List StoredFileRef :=
  match v.event with
  | .created size => fileRefs ++ [⟨v.fileId, v.tenantId, size, false⟩]
  | .deleted _ => fileRefs.map fun f => if f.id = v.fileId then { f with isDeleted := true } else f
  | .restored _ => fileRefs.map fun f => if f.id = v.fileId then { f with isDeleted := false } else f
  | .forgotten => KeyedRows.delete StoredFileRef.id v.fileId fileRefs

/-- The events that the handlers of the projection have applied. -/
def appliedOf (calls : List HandlerCall) : List EventRow :=
  calls.filterMap fun
    | .event row none => some row
    | _ => none

namespace StorageWorld

/-- Nothing is stored and the projection is not registered. -/
def initial : StorageWorld :=
  { log := .initial, payload := fun _ => none, fileRefs := [], verbs := [], registered := false,
    slot := .registered 0 [], applied := [], usage := fun _ => none, handovers := [] }

section
variable (w : StorageWorld)

/-- The row of a file. -/
def fileRef (fileId : String) : Option StoredFileRef := KeyedRows.lookup StoredFileRef.id fileId w.fileRefs

/-- The consumer row, as far as a handover reads it. Reference: `selectConsumerCursorForUpdate`. -/
def consumer : Option (ℕ × List PendingGapEntry) :=
  if w.registered then some (w.slot.row.lastProcessedEventId, w.slot.row.pendingGaps) else none

/-- A handover has locked the consumer row. -/
def Locked : Prop := ∃ h ∈ w.handovers, h.locked = true

instance : Decidable w.Locked := inferInstanceAs (Decidable (∃ h ∈ _, _))

/-- A transaction's step waits for a handover that has locked the row of a file, or it is a verb's. -/
def Waits : LogAct → Prop
  | .insert _ _ ev => ev.aggregateType = fileRefAggregateType
  | .commit x => ∃ v ∈ w.verbs, v.xid = x ∧ ∃ h ∈ w.handovers, v.fileId ∈ h.fileIds
  | _ => False

instance (a : LogAct) : Decidable (w.Waits a) := by
  unfold Waits
  split <;> infer_instance

/-- What the end of a transaction does with its verbs. -/
def afterWriter (log : Log) : LogAct → StorageWorld
  | .commit x =>
    { w with log, fileRefs := (w.verbs.filter (·.xid = x)).foldl applyEntityEvent w.fileRefs,
             verbs := w.verbs.filter (·.xid ≠ x) }
  | .abort x => { w with log, verbs := w.verbs.filter (·.xid ≠ x) }
  | _ => { w with log }

/-- No other verb is in progress on the file, the id is above those of its events, and a created file is new. -/
def VerbFree (id : ℕ) (fileId : String) (change : FileRefChange) : Prop :=
  (∀ v ∈ w.verbs, v.fileId ≠ fileId) ∧ (∀ r ∈ w.log.rows, r.IsOfFile fileId → r.id < id) ∧
    match change with
    | .create .. => ∀ r ∈ w.log.rows, ¬ r.IsOfFile fileId
    | _ => True

instance (id : ℕ) (fileId : String) (change : FileRefChange) : Decidable (w.VerbFree id fileId change) := by
  unfold VerbFree
  cases change <;> infer_instance

/-- The event of a verb, the next one of its file. -/
def verbEvent (v : FileRefVerb) : NewEvent :=
  { tenantId := v.tenantId, aggregateType := fileRefAggregateType, aggregateId := v.fileId,
    version := (w.log.visibleRows.filter (·.IsOfFile v.fileId)).length + 1, type := v.event.type, createdAt := 0,
    idempotencyKey := none }

/-- The events that the turn in progress has applied, after a step of it. -/
def appliedAfter (slot : ConsumerSlot) : TurnAct → List EventRow
  | .deliver _ =>
    match slot.turn with
    | some ⟨_, _, .delivered d _ _⟩ => appliedOf d.calls
    | _ => []
  | .commit | .abort => []
  | _ => w.applied

/-- The counters after a step of a turn: what its handlers do shows at once, and the end of the turn takes nothing
back. -/
def usageAfter (slot : ConsumerSlot) : TurnAct → StorageUsage
  | .deliver answers => (w.appliedAfter slot (.deliver answers)).foldl (applyRow w.payload) w.usage
  | _ => w.usage

/-- The files that a handover moves. Reference: `moveFileRefs`. -/
def movedIds (source : String) (fileIds : List String) : List String :=
  (w.fileRefs.filter fun f => f.tenantId = source ∧ f.id ∈ fileIds).map (·.id)

/-- The events that a handover of the files relabels. Reference: `transferEventRows`. -/
def movedEventIds (source : String) (fileIds : List String) : List ℕ :=
  (w.log.visibleRows.filter fun r => r.tenantId = source ∧ r.aggregateType = fileRefAggregateType ∧
    r.aggregateId ∈ fileIds).map (·.id)

/-- A handover waits for the rows of its files, and for the consumer row. -/
def HandOverWaits (moved : List String) : Prop :=
  (∃ h ∈ w.handovers, ∃ fileId ∈ h.fileIds, fileId ∈ moved) ∨
    (w.registered = true ∧ (w.slot.turn.isSome ∨ w.Locked))

instance (moved : List String) : Decidable (w.HandOverWaits moved) := inferInstanceAs (Decidable (_ ∨ _))

end

end StorageWorld

/-- The update of the events. -/
def FileHandover.transfer (h : FileHandover) : OpenTransfer := ⟨h.source, h.destination, h.eventIds⟩

/-- A row after the handover. -/
def FileHandover.moveFileRef (h : FileHandover) (f : StoredFileRef) : StoredFileRef :=
  if f.id ∈ h.fileIds then { f with tenantId := h.destination } else f

namespace StorageWorld

/-- One step. -/
def step (opts : DispatcherOptions) (w : StorageWorld) : StorageAct → Option StorageWorld
  | .writer a => if w.Waits a then none else (w.log.step a).map fun log => w.afterWriter log a
  | .verb xid id fileId change =>
    if w.VerbFree id fileId change then
      match change.event (w.fileRef fileId) with
      | none => none
      | some (tenantId, event) =>
        let v : FileRefVerb := ⟨xid, id, fileId, tenantId, event⟩
        (w.log.step (.insert xid id (w.verbEvent v))).map fun log =>
          { w with log, payload := Function.update w.payload id (some event), verbs := v :: w.verbs }
    else none
  | .register => if w.registered then none else some { w with registered := true }
  | .turn a =>
    if w.registered ∧ ¬ w.Locked then
      (turnStep perEventConsumer opts w.log w.slot a).map fun r =>
        { w with log := r.1, slot := r.2, applied := w.appliedAfter r.2 a, usage := w.usageAfter r.2 a }
    else none
  | .handOver source destination fileIds =>
    let moved := w.movedIds source fileIds
    if moved.length = 0 then some w
    else if w.HandOverWaits moved then none
    else some { w with handovers :=
      { source, destination, fileIds := moved, eventIds := w.movedEventIds source moved,
        share := appliedShare w.payload w.consumer w.log.visibleRows moved source, locked := w.registered } ::
        w.handovers }
  | .commitHandOver h =>
    if h ∈ w.handovers then
      some { w with
        log := { w.log with rows := w.log.rows.map h.transfer.moveRow }
        fileRefs := w.fileRefs.map h.moveFileRef
        usage := moveShare w.usage h.source h.destination h.share
        handovers := w.handovers.erase h }
    else none
  | .abortHandOver h => if h ∈ w.handovers then some { w with handovers := w.handovers.erase h } else none

end StorageWorld

/-- The ids that a turn has fetched. -/
def TurnPhase.fetchedIds : TurnPhase → List ℕ
  | .fetched _ events => events.map (·.id)
  | .delivered d _ _ => d.deliverable.map (·.id)
  | .persisted _ resolved _ => resolved
  | _ => []

namespace StorageWorld

/-- The ids that the turn in progress has fetched. -/
def fetchedIds (w : StorageWorld) : List ℕ := (w.slot.turn.map (·.phase.fetchedIds)).getD []

/-- The steps that keep the counters and the rows together: a verb that commits has written its event under the tenant
that its row has, and has not forgotten a live file; `xmax` covers the gaps a turn records, and no turn is rolled back
after it has applied events; and the events of a handover that has locked nothing have not been fetched when it
commits. -/
def StorageOk (w : StorageWorld) : StorageAct → Prop
  | .writer (.commit x) => ∀ v ∈ w.verbs, v.xid = x → ∀ f ∈ w.fileRefs, f.id = v.fileId →
      v.tenantId = f.tenantId ∧ (v.event = .forgotten → f.isDeleted = true)
  | .turn .abort => w.applied = []
  | .turn a => XmaxOk w.log w.slot a
  | .commitHandOver h => h.locked = false → ∀ id ∈ h.eventIds, id ∉ w.slot.resolved ∧ id ∉ w.fetchedIds
  | _ => True

instance (w : StorageWorld) (a : StorageAct) : Decidable (w.StorageOk a) := by
  unfold StorageOk
  split <;> infer_instance

/-- What a tenant's files take of the storage. -/
def storedShare (w : StorageWorld) (tenantId : String) : ℤ × ℤ :=
  sumWhere (fun f => ((f.size : ℤ), 1)) w.fileRefs fun f => f.tenantId = tenantId ∧ f.isDeleted = false

/-- The projection has consumed every committed event. -/
def Consumed (w : StorageWorld) : Prop := ∀ r ∈ w.log.visibleRows, r.id ∈ w.slot.resolved

instance (w : StorageWorld) : Decidable w.Consumed := inferInstanceAs (Decidable (∀ r ∈ _, _))

/-- No counter is negative, and when the projection has consumed all events each tenant's counters are what its files
take. -/
structure UsageExact (w : StorageWorld) : Prop where
  nonneg : ∀ tenantId, 0 ≤ (w.usage tenantId).getD 0
  exact : w.Consumed → ∀ tenantId, (w.usage tenantId).getD 0 = w.storedShare tenantId

end StorageWorld

/-! ## The rows that a step of the log shows -/

namespace Log

variable {l : Log} {r : EventRow} {x id : ℕ} {ev : NewEvent} {fileId : String}

/-- The committed events of a file. -/
def fileRows (l : Log) (fileId : String) : List EventRow := l.visibleRows.filter (·.IsOfFile fileId)

/-- What they say. -/
def fileEvents (l : Log) (payload : ℕ → Option FileRefEvent) (fileId : String) : List FileRefEvent :=
  (l.fileRows fileId).filterMap fun r => payload r.id

theorem mem_fileRows : r ∈ l.fileRows fileId ↔ r ∈ l.visibleRows ∧ r.IsOfFile fileId := by
  simp [fileRows]

/-- The row of a transaction in progress is not seen. -/
theorem visibleRows_insert (h : l.WF) (hx : l.Writing x) (hd : (id, x) ∈ l.draws) (hn : ∀ r ∈ l.rows, r.id ≠ id) :
    { l with rows := insertRow (ev.toRow id x) l.rows }.visibleRows = l.visibleRows := by
  refine eq_of_mem_iff (h.insert hd hn).visibleRows_sorted h.visibleRows_sorted fun r => ?_
  rw [mem_visibleRows, mem_visibleRows]
  refine and_congr_left fun hv => ?_
  rw [mem_insertRow]
  refine or_iff_right fun he => ?_
  subst he
  exact h.xacts.disjoint x hv.1 hx.2

/-- The commit of a reader shows nothing. -/
theorem visibleRows_commit_reading (h : l.WF) (hx : l.Reading x) : (l.commit x).visibleRows = l.visibleRows := by
  refine List.filter_congr fun r hr => decide_eq_decide.2 (and_congr_left fun _ => ?_)
  show r.xid ∈ x :: l.xacts.committed ↔ _
  rw [List.mem_cons]
  refine or_iff_right fun he => hx.1 ?_
  rw [← he]
  exact h.draw_writer _ (h.drawn r hr)

/-- The commit of a writer shows its rows. -/
theorem mem_visibleRows_commit (hp : l.pruned = []) :
    r ∈ { l with xacts := l.xacts.commit x }.visibleRows ↔ r ∈ l.visibleRows ∨ (r ∈ l.rows ∧ r.xid = x) := by
  rw [mem_visibleRows, mem_visibleRows]
  have hnot : r.id ∉ l.pruned := by simp [hp]
  have hvis : ({ l with xacts := l.xacts.commit x } : Log).Visible r ↔ r.xid = x ∨ r.xid ∈ l.xacts.committed :=
    (and_iff_left hnot).trans List.mem_cons
  have hvis' : l.Visible r ↔ r.xid ∈ l.xacts.committed := and_iff_left hnot
  rw [hvis, hvis']
  tauto

end Log

section
variable {payload : ℕ → Option FileRefEvent} {rows : List EventRow} {applied : List ℕ} {usage : StorageUsage}
  {r : EventRow} {event : FileRefEvent}

/-- A row that has not been applied adds nothing. -/
theorem Counted.insertRow (h : Counted payload rows applied usage) (hn : r.id ∉ applied) :
    Counted payload (Log.insertRow r rows) applied usage := by
  have hsum : ∀ (p : EventRow → Prop) [DecidablePred p], ¬ p r →
      sumWhere (storageDelta payload) (Log.insertRow r rows) p = sumWhere (storageDelta payload) rows p := by
    intro p _ hp
    have hperm : (Log.insertRow r rows).Perm (r :: rows) := List.perm_orderedInsert _ r rows
    rw [sumWhere, (hperm.map _).sum_eq, List.map_cons, List.sum_cons, if_neg hp, zero_add, sumWhere]
  refine ⟨fun t => (h.total t).trans (hsum _ fun hr => hn hr.1).symm, fun t fileId hne => h.present t fileId ?_⟩
  rwa [fileShare, ← hsum _ fun hr => hn hr.1.1]

/-- So does what an event says that has not been applied. -/
theorem Counted.update {id : ℕ} (h : Counted payload rows applied usage) (hn : id ∉ applied) :
    Counted (Function.update payload id (some event)) rows applied usage := by
  have hsum : ∀ (p : EventRow → Prop) [DecidablePred p], (∀ r, p r → r.id ∈ applied) →
      sumWhere (storageDelta (Function.update payload id (some event))) rows p =
        sumWhere (storageDelta payload) rows p := by
    intro p _ hp
    refine congrArg _ (List.map_congr_left fun r _ => ?_)
    by_cases hr : p r
    · have hne : r.id ≠ id := fun he => hn (he ▸ hp r hr)
      rw [if_pos hr, if_pos hr, storageDelta, Function.update_of_ne hne, storageDelta]
    · rw [if_neg hr, if_neg hr]
  refine ⟨fun t => (h.total t).trans (hsum _ fun r hr => hr.1).symm, fun t fileId hne => h.present t fileId ?_⟩
  rwa [fileShare, ← hsum _ fun r hr => hr.1.1]

end

/-! ## The rows after verbs -/

/-- The row of a verb's file, after the verb. -/
def FileRefVerb.after (v : FileRefVerb) (row : Option StoredFileRef) : Option StoredFileRef :=
  match v.event with
  | .created size => some ⟨v.fileId, v.tenantId, size, false⟩
  | .deleted _ => row.map fun f => { f with isDeleted := true }
  | .restored _ => row.map fun f => { f with isDeleted := false }
  | .forgotten => none

section
variable {v : FileRefVerb} {vs : List FileRefVerb} {fileRefs : List StoredFileRef} {fileId : String}

theorem lookup_applyEntityEvent_of_ne (h : v.fileId ≠ fileId) :
    KeyedRows.lookup StoredFileRef.id fileId (applyEntityEvent fileRefs v) =
      KeyedRows.lookup StoredFileRef.id fileId fileRefs := by
  have hmap : ∀ g : StoredFileRef → StoredFileRef, (∀ f, (g f).id = f.id) →
      KeyedRows.lookup StoredFileRef.id fileId (fileRefs.map fun f => if f.id = v.fileId then g f else f) =
        KeyedRows.lookup StoredFileRef.id fileId fileRefs := by
    intro g hg
    rw [KeyedRows.lookup_map fun f => by split <;> simp [hg]]
    cases hf : KeyedRows.lookup StoredFileRef.id fileId fileRefs with
    | none => rfl
    | some f =>
      rw [Option.map_some, if_neg]
      exact fun he => h (he.symm.trans (KeyedRows.key_of_lookup hf))
  unfold applyEntityEvent
  split
  · exact KeyedRows.lookup_append_of_ne h
  · exact hmap _ fun _ => rfl
  · exact hmap _ fun _ => rfl
  · exact KeyedRows.lookup_delete_of_ne h

theorem lookup_applyEntityEvent_self
    (h : ∀ n, v.event = .created n → KeyedRows.lookup StoredFileRef.id v.fileId fileRefs = none) :
    KeyedRows.lookup StoredFileRef.id v.fileId (applyEntityEvent fileRefs v) =
      v.after (KeyedRows.lookup StoredFileRef.id v.fileId fileRefs) := by
  have hmap : ∀ g : StoredFileRef → StoredFileRef, (∀ f, (g f).id = f.id) →
      KeyedRows.lookup StoredFileRef.id v.fileId (fileRefs.map fun f => if f.id = v.fileId then g f else f) =
        (KeyedRows.lookup StoredFileRef.id v.fileId fileRefs).map g := by
    intro g hg
    rw [KeyedRows.lookup_map fun f => by split <;> simp [hg]]
    refine Option.map_congr fun f hf => ?_
    exact if_pos (KeyedRows.key_of_lookup hf)
  unfold applyEntityEvent FileRefVerb.after
  cases he : v.event with
  | created size =>
    let row : StoredFileRef := ⟨v.fileId, v.tenantId, size, false⟩
    have hnone : KeyedRows.lookup StoredFileRef.id row.id fileRefs = none := h size he
    exact KeyedRows.lookup_append_self hnone
  | deleted => exact hmap _ fun _ => rfl
  | restored => exact hmap _ fun _ => rfl
  | forgotten => exact KeyedRows.lookup_delete_self

theorem nodup_applyEntityEvent (hn : (fileRefs.map (·.id)).Nodup)
    (h : ∀ n, v.event = .created n → KeyedRows.lookup StoredFileRef.id v.fileId fileRefs = none) :
    ((applyEntityEvent fileRefs v).map (·.id)).Nodup := by
  have hmap : ∀ g : StoredFileRef → StoredFileRef, (∀ f, (g f).id = f.id) →
      ((fileRefs.map fun f => if f.id = v.fileId then g f else f).map (·.id)).Nodup := by
    intro g hg
    rw [List.map_map]
    refine (List.map_congr_left fun f _ => ?_).symm ▸ hn
    show (if f.id = v.fileId then g f else f).id = f.id
    split
    · exact hg f
    · rfl
  unfold applyEntityEvent
  cases he : v.event with
  | created size =>
    rw [List.map_append, List.nodup_append]
    refine ⟨hn, List.nodup_singleton _, fun a ha b hb => ?_⟩
    obtain ⟨f, hf, rfl⟩ := List.mem_map.1 ha
    rw [List.mem_singleton.1 hb]
    exact KeyedRows.lookup_eq_none.1 (h size he) f hf
  | deleted => exact hmap _ fun _ => rfl
  | restored => exact hmap _ fun _ => rfl
  | forgotten => exact KeyedRows.nodup_delete hn

/-- The verbs of a transaction are of different files. -/
theorem foldl_applyEntityEvent (hn : (fileRefs.map (·.id)).Nodup)
    (hapart : vs.Pairwise fun v v' => v.fileId ≠ v'.fileId)
    (hnew : ∀ v ∈ vs, ∀ n, v.event = .created n → KeyedRows.lookup StoredFileRef.id v.fileId fileRefs = none) :
    ((vs.foldl applyEntityEvent fileRefs).map (·.id)).Nodup ∧
    (∀ fileId, (∀ v ∈ vs, v.fileId ≠ fileId) →
      KeyedRows.lookup StoredFileRef.id fileId (vs.foldl applyEntityEvent fileRefs) =
        KeyedRows.lookup StoredFileRef.id fileId fileRefs) ∧
    ∀ v ∈ vs, KeyedRows.lookup StoredFileRef.id v.fileId (vs.foldl applyEntityEvent fileRefs) =
      v.after (KeyedRows.lookup StoredFileRef.id v.fileId fileRefs) := by
  induction vs generalizing fileRefs with
  | nil => exact ⟨hn, fun _ _ => rfl, fun _ hv => nomatch hv⟩
  | cons v vs ih =>
    rw [List.pairwise_cons] at hapart
    have hv := hnew v (.head _)
    have hother : ∀ v' ∈ vs, KeyedRows.lookup StoredFileRef.id v'.fileId (applyEntityEvent fileRefs v) =
        KeyedRows.lookup StoredFileRef.id v'.fileId fileRefs := fun v' hv' =>
      lookup_applyEntityEvent_of_ne (hapart.1 v' hv')
    obtain ⟨hnodup, hkept, hafter⟩ := ih (nodup_applyEntityEvent hn hv) hapart.2 fun v' hv' n he =>
      (hother v' hv').trans (hnew v' (.tail _ hv') n he)
    refine ⟨hnodup, fun fileId hne => ?_, fun v' hv' => ?_⟩
    · rw [List.foldl_cons, hkept fileId fun v' hv' => hne v' (.tail _ hv')]
      exact lookup_applyEntityEvent_of_ne (hne v (.head _))
    · rw [List.foldl_cons]
      cases hv' with
      | head =>
        rw [hkept v.fileId fun v' hv' => (hapart.1 v' hv').symm]
        exact lookup_applyEntityEvent_self hv
      | tail _ hv' => rw [hafter v' hv', hother v' hv']

end

/-! ## The invariant -/

/-- The event of a verb follows from the row, and a created file has had no event. -/
def FileRefVerb.Fits (v : FileRefVerb) (row : Option StoredFileRef) (rows : List EventRow) : Prop :=
  match v.event with
  | .created _ => row = none ∧ rows = []
  | .deleted size => ∃ f, row = some f ∧ f.isDeleted = false ∧ size = f.size
  | .restored size => ∃ f, row = some f ∧ f.isDeleted = true ∧ size = f.size
  | .forgotten => ∃ f, row = some f

/-- The rows are events of one file. -/
def EventRow.SameFile (p r : EventRow) : Prop :=
  p.aggregateType = fileRefAggregateType ∧ r.aggregateType = fileRefAggregateType ∧ p.aggregateId = r.aggregateId

namespace StorageWorld

section
variable (w : StorageWorld)

/-- What a verb in progress has written, and what it has read still holds. -/
structure VerbOk (v : FileRefVerb) : Prop where
  row : ∃ r ∈ w.log.rows, r.id = v.eventId ∧ r.xid = v.xid ∧ r.IsOfFile v.fileId ∧ r.tenantId = v.tenantId
  event : w.payload v.eventId = some v.event
  running : v.xid ∈ w.log.xacts.running
  top : ∀ r ∈ w.log.rows, r.IsOfFile v.fileId → r.id ≤ v.eventId
  fits : v.Fits (w.fileRef v.fileId) (w.log.fileRows v.fileId)

/-- The committed events of a file are its history, under one tenant, and its row is what they make of it. -/
def FileOk (fileId : String) : Prop :=
  ∃ state tenantId, FileRefState.replay (w.log.fileEvents w.payload fileId) = some state ∧
    (∀ r ∈ w.log.fileRows fileId, r.tenantId = tenantId) ∧
    match w.fileRef fileId with
    | some f => state = f.state ∧ tenantId = f.tenantId
    | none => state.share = 0

/-- The log, the rows and the verbs in progress belong together. -/
structure StoreInv : Prop where
  log : w.log.WF
  pruned : w.log.pruned = []
  nodup : (w.fileRefs.map (·.id)).Nodup
  payload_row : ∀ id event, w.payload id = some event →
    ∃ r ∈ w.log.rows, r.id = id ∧ r.aggregateType = fileRefAggregateType
  payload_some : ∀ r ∈ w.log.rows, r.aggregateType = fileRefAggregateType → ∃ event, w.payload r.id = some event
  verbs : ∀ v ∈ w.verbs, w.VerbOk v
  apart : w.verbs.Pairwise fun v v' => v.fileId ≠ v'.fileId
  /-- An event of a file that is not committed is a verb's. -/
  owned : ∀ r ∈ w.log.rows, r.aggregateType = fileRefAggregateType → r.xid ∈ w.log.xacts.running →
    ∃ v ∈ w.verbs, v.eventId = r.id ∧ v.xid = r.xid
  files : ∀ fileId, w.FileOk fileId

/-- The committed events of the file before this one have been resolved, or are among these. -/
def Follows (ids : List ℕ) (r : EventRow) : Prop :=
  ∀ p ∈ w.log.visibleRows, p.SameFile r → p.id < r.id → p.id ∈ w.slot.resolved ∨ p.id ∈ ids

/-- What a turn in progress has applied are committed events, each after those of its file before it. -/
structure AppliedOk : Prop where
  ids : w.applied.map (·.id) = (w.slot.turn.map (·.phase.resolved perEventConsumer)).getD []
  visible : ∀ r ∈ w.applied, r ∈ w.log.visibleRows
  follows : History.Along (fun before r => w.Follows (before.map (·.id)) r) w.applied

/-- What a turn has fetched are committed events, and those of their files before them are resolved or fetched. -/
def FetchedOk (turn : Option Turn) : Prop := ∀ t, turn = some t → ∀ xminNow events, t.phase = .fetched xminNow events →
  ∀ r ∈ events, r ∈ w.log.visibleRows ∧ w.Follows (events.map (·.id)) r

/-- The events that count, those that a turn in progress has applied included. -/
def countedIds : List ℕ := w.slot.resolved ++ w.applied.map (·.id)

/-- A handover in progress has taken the events of its files, and their share. -/
structure HandoverOk (h : FileHandover) : Prop where
  files : ∀ fileId ∈ h.fileIds, ∃ f, w.fileRef fileId = some f ∧ f.tenantId = h.source
  events : ∀ r ∈ w.log.visibleRows, r.id ∈ h.eventIds ↔
    r.aggregateType = fileRefAggregateType ∧ r.aggregateId ∈ h.fileIds
  rows : ∀ id ∈ h.eventIds, ∃ r ∈ w.log.visibleRows, r.id = id
  locked : h.locked = true → w.slot.turn = none ∧
    h.share = sumWhere (storageDelta w.payload) w.log.rows fun r => r.id ∈ w.slot.resolved ∧ r.id ∈ h.eventIds
  unlocked : h.locked = false → h.share = 0

end

/-- The invariant of the world. -/
structure StorageInv (opts : DispatcherOptions) (w : StorageWorld) : Prop where
  store : w.StoreInv
  slot : SlotInv perEventConsumer opts [] w.log w.slot
  /-- The events of a file are resolved in their order. -/
  order : ∀ r ∈ w.log.visibleRows, r.id ∈ w.slot.resolved → w.Follows [] r
  fetched : w.FetchedOk w.slot.turn
  applied : w.AppliedOk
  counted : Counted w.payload w.log.rows w.countedIds w.usage
  handovers : ∀ h ∈ w.handovers, w.HandoverOk h
  apart : w.handovers.Pairwise fun h h' =>
    (∀ fileId ∈ h.fileIds, fileId ∉ h'.fileIds) ∧ ¬ (h.locked = true ∧ h'.locked = true)

section
variable {opts : DispatcherOptions} {w w' : StorageWorld} {log : Log} {v : FileRefVerb} {r p : EventRow}
  {fileId : String} {ids : List ℕ} {x : ℕ}

theorem FileOk.congr (h : w.FileOk fileId) (hrows : w'.log.fileRows fileId = w.log.fileRows fileId)
    (hpayload : ∀ r ∈ w.log.fileRows fileId, w'.payload r.id = w.payload r.id)
    (hrow : w'.fileRef fileId = w.fileRef fileId) : w'.FileOk fileId := by
  have hevents : w'.log.fileEvents w'.payload fileId = w.log.fileEvents w.payload fileId := by
    rw [Log.fileEvents, hrows, Log.fileEvents]
    exact List.filterMap_congr hpayload
  unfold FileOk
  rw [hevents, hrows, hrow]
  exact h

/-- What belongs together does so whatever the projection and the handovers do. -/
theorem StoreInv.of_eq (h : w.StoreInv) (hlog : w'.log = w.log) (hpayload : w'.payload = w.payload)
    (hfileRefs : w'.fileRefs = w.fileRefs) (hverbs : w'.verbs = w.verbs) : w'.StoreInv := by
  obtain ⟨log, payload, fileRefs, verbs⟩ := w'
  subst hlog hpayload hfileRefs hverbs
  exact ⟨h.log, h.pruned, h.nodup, h.payload_row, h.payload_some, fun v hv => ⟨(h.verbs v hv).row, (h.verbs v hv).event,
    (h.verbs v hv).running, (h.verbs v hv).top, (h.verbs v hv).fits⟩, h.apart, h.owned, h.files⟩

/-- A file's events have one tenant, that of its row. -/
theorem StoreInv.tenant_of_row (h : w.StoreInv) {f : StoredFileRef} (hf : w.fileRef fileId = some f)
    (hr : r ∈ w.log.fileRows fileId) : r.tenantId = f.tenantId := by
  obtain ⟨state, tenantId, -, htenant, hmatch⟩ := h.files fileId
  rw [hf] at hmatch
  exact (htenant r hr).trans hmatch.2

/-- A file has one verb in progress. -/
theorem StoreInv.verb_unique (h : w.StoreInv) {v' : FileRefVerb} (hv : v ∈ w.verbs) (hv' : v' ∈ w.verbs)
    (he : v.fileId = v'.fileId) : v = v' :=
  List.inj_on_of_nodup_map (List.pairwise_map.2 h.apart) hv hv' he

/-- A settled id is that of a committed row. -/
theorem StorageInv.resolved_row (h : StorageInv opts w) {id : ℕ} (hid : id ∈ w.slot.resolved) :
    ∃ r ∈ w.log.visibleRows, r.id = id := by
  obtain ⟨-, -, r, hr, hrid, hx⟩ := h.slot.owes.settled_mem id hid
  exact ⟨r, Log.mem_visibleRows.2 ⟨hr, hx, by simp [h.store.pruned]⟩, hrid⟩

/-- So is one that counts. -/
theorem StorageInv.counted_row (h : StorageInv opts w) {id : ℕ} (hid : id ∈ w.countedIds) :
    ∃ r ∈ w.log.visibleRows, r.id = id := by
  rcases List.mem_append.1 hid with hid | hid
  · exact h.resolved_row hid
  · obtain ⟨r, hr, heq⟩ := List.mem_map.1 hid
    exact ⟨r, h.applied.visible r hr, heq⟩

theorem StorageInv.visible_of_counted (h : StorageInv opts w) (hr : r ∈ w.log.rows)
    (hid : r.id ∈ w.countedIds) : r ∈ w.log.visibleRows := by
  obtain ⟨r', hr', heq⟩ := h.counted_row hid
  rwa [← h.store.log.id_inj (Log.mem_visibleRows.1 hr').1 hr heq]

theorem StorageInv.visible_of_resolved (h : StorageInv opts w) (hr : r ∈ w.log.rows)
    (hid : r.id ∈ w.slot.resolved) : r ∈ w.log.visibleRows :=
  h.visible_of_counted hr (List.mem_append_left _ hid)

/-- The events of a file that are resolved or applied are a beginning of its history. -/
theorem StorageInv.closed (h : StorageInv opts w) {applied : List EventRow}
    (hvisible : ∀ r ∈ applied, r ∈ w.log.visibleRows)
    (hfollows : History.Along (fun before r => w.Follows (before.map (·.id)) r) applied)
    (hp : p ∈ w.log.visibleRows) (hr : r ∈ w.log.visibleRows) (hsame : p.SameFile r) (hlt : p.id < r.id)
    (hid : r.id ∈ w.slot.resolved ++ applied.map (·.id)) : p.id ∈ w.slot.resolved ++ applied.map (·.id) := by
  rcases List.mem_append.1 hid with hid | hid
  · exact List.mem_append_left _ ((h.order r hr hid p hp hsame hlt).resolve_right List.not_mem_nil)
  · obtain ⟨y, hy, heq⟩ := List.mem_map.1 hid
    obtain rfl := h.store.log.id_inj (Log.mem_visibleRows.1 (hvisible y hy)).1 (Log.mem_visibleRows.1 hr).1 heq
    obtain ⟨before, after, hsplit⟩ := List.append_of_mem hy
    rcases hfollows before y after hsplit p hp hsame hlt with hres | hbefore
    · exact List.mem_append_left _ hres
    · rw [hsplit, List.map_append]
      exact List.mem_append_right _ (List.mem_append_left _ hbefore)

theorem StorageInv.counted_closed (h : StorageInv opts w) (hp : p ∈ w.log.visibleRows) (hr : r ∈ w.log.visibleRows)
    (hsame : p.SameFile r) (hlt : p.id < r.id) (hid : r.id ∈ w.countedIds) : p.id ∈ w.countedIds :=
  h.closed h.applied.visible h.applied.follows hp hr hsame hlt hid

/-- A turn has fetched what it has applied. -/
theorem StorageInv.fetched_of_applied (h : StorageInv opts w) {id : ℕ} (hid : id ∈ w.applied.map (·.id)) :
    id ∈ w.fetchedIds := by
  rw [h.applied.ids] at hid
  cases ht : w.slot.turn with
  | none =>
    rw [ht] at hid
    cases hid
  | some t =>
    have hphase := h.slot.turn_phase t ht
    rw [ht] at hid
    rw [fetchedIds, ht]
    change id ∈ t.phase.resolved perEventConsumer at hid
    show id ∈ t.phase.fetchedIds
    generalize t.phase = phase at hid hphase ⊢
    cases phase with
    | delivered d =>
      obtain ⟨⟨e, he, rfl⟩, -⟩ := hphase.2.2.1.resolved id hid
      exact List.mem_map_of_mem he
    | persisted => exact hid
    | acquired | xminRead | fetched | skipped => cases hid

/-- A turn that has delivered nothing yet has applied nothing. -/
theorem AppliedOk.eq_nil (h : w.AppliedOk) (ht : (w.slot.turn.map (·.phase.resolved perEventConsumer)).getD [] = []) :
    w.applied = [] :=
  List.map_eq_nil_iff.1 (h.ids.trans ht)

/-- Of a committed event the projection has resolved what its cursor has passed outside of the gaps. -/
theorem StorageInv.resolved_iff (h : StorageInv opts w) (hr : r ∈ w.log.visibleRows) :
    r.id ∈ w.slot.resolved ↔ AppliedBy w.slot.row.lastProcessedEventId w.slot.row.pendingGaps r := by
  obtain ⟨hmem, hcom, hkept⟩ := Log.mem_visibleRows.1 hr
  constructor
  · intro hid
    obtain ⟨hle, hgap, -⟩ := h.slot.owes.settled_mem _ hid
    exact ⟨hle, hgap⟩
  · rintro ⟨hle, hgap⟩
    rcases h.slot.owes.accounted r hmem hle with hs | hc | hg
    · exact hs
    · exact absurd hc hgap
    · exact (hg.elim (fun ha => ha.2.2 hcom) hkept).elim

/-! ## Steps that show no event -/

/-- The log goes on, and what a reader of the fileRef events sees of it is the same. -/
structure Quiet (w : StorageWorld) (log : Log) : Prop where
  wf : log.WF
  pruned : log.pruned = []
  ext : w.log.Ext log
  visible : log.visibleRows = w.log.visibleRows
  rows : ∀ r ∈ log.rows, r.aggregateType = fileRefAggregateType → r ∈ w.log.rows
  counted : Counted w.payload log.rows w.countedIds w.usage
  sums : ∀ ids : List ℕ,
    sumWhere (storageDelta w.payload) log.rows (fun r => r.id ∈ w.slot.resolved ∧ r.id ∈ ids) =
      sumWhere (storageDelta w.payload) w.log.rows fun r => r.id ∈ w.slot.resolved ∧ r.id ∈ ids

theorem StoreInv.quiet (h : w.StoreInv) (q : w.Quiet log) {verbs : List FileRefVerb} (hsub : verbs.Sublist w.verbs)
    (hrunning : ∀ v ∈ verbs, v.xid ∈ log.xacts.running)
    (howned : ∀ v ∈ w.verbs, v.xid ∈ log.xacts.running → v ∈ verbs)
    (hold : ∀ x ∈ log.xacts.running, x < w.log.xacts.nextXid → x ∈ w.log.xacts.running) :
    { w with log, verbs }.StoreInv where
  log := q.wf
  pruned := q.pruned
  nodup := h.nodup
  payload_row id event he := by
    obtain ⟨r, hr, hid⟩ := h.payload_row id event he
    exact ⟨r, q.ext.rows r hr, hid⟩
  payload_some r hr ht := h.payload_some r (q.rows r hr ht) ht
  verbs v hv := by
    have hok := h.verbs v (hsub.subset hv)
    obtain ⟨r, hr, hrow⟩ := hok.row
    refine ⟨⟨r, q.ext.rows r hr, hrow⟩, hok.event, hrunning v hv, fun r hr hf => hok.top r (q.rows r hr hf.1) hf, ?_⟩
    have hrows : log.fileRows v.fileId = w.log.fileRows v.fileId := by rw [Log.fileRows, q.visible, Log.fileRows]
    show v.Fits _ (log.fileRows v.fileId)
    rw [hrows]
    exact hok.fits
  apart := h.apart.sublist hsub
  owned r hr ht hx := by
    have hmem := q.rows r hr ht
    obtain ⟨v, hv, hid, hxid⟩ := h.owned r hmem ht (hold _ hx (h.log.xid_lt hmem))
    exact ⟨v, howned v hv (hxid ▸ hx), hid, hxid⟩
  files fileId := (h.files fileId).congr (by rw [Log.fileRows, q.visible, Log.fileRows]) (fun _ _ => rfl) rfl

/-- A step that shows nothing, resolves nothing and applies nothing keeps the invariant. -/
theorem StorageInv.quiet (h : StorageInv opts w) (q : w.Quiet log) {verbs : List FileRefVerb} {slot : ConsumerSlot}
    (hstore : { w with log, verbs }.StoreInv) (hslot : SlotInv perEventConsumer opts [] log slot)
    (hresolved : slot.resolved = w.slot.resolved) (hfetched : w.FetchedOk slot.turn)
    (hids : w.applied.map (·.id) = (slot.turn.map (·.phase.resolved perEventConsumer)).getD [])
    (hlocked : ∀ h ∈ w.handovers, h.locked = true → slot.turn = none) :
    StorageInv opts { w with log, verbs, slot } := by
  have hfollows : ∀ {ids : List ℕ} {r : EventRow}, w.Follows ids r → { w with log, verbs, slot }.Follows ids r := by
    intro ids r hf p hp
    have hp : p ∈ w.log.visibleRows := q.visible ▸ hp
    show _ → _ → p.id ∈ slot.resolved ∨ _
    rw [hresolved]
    exact hf p hp
  refine ⟨hstore.of_eq rfl rfl rfl rfl, hslot, fun r hr hid => ?_, fun t ht xminNow events he r hr => ?_,
    ⟨hids, fun r hr => q.visible ▸ h.applied.visible r hr, h.applied.follows.mono fun before r => hfollows⟩, ?_,
    fun h' hh => ?_, h.apart⟩
  · change r.id ∈ slot.resolved at hid
    rw [hresolved] at hid
    exact hfollows (h.order r (q.visible ▸ hr) hid)
  · obtain ⟨hv, hf⟩ := hfetched t ht xminNow events he r hr
    exact ⟨q.visible ▸ hv, hfollows hf⟩
  · show Counted w.payload log.rows (slot.resolved ++ _) w.usage
    rw [hresolved]
    exact q.counted
  · have hok := h.handovers h' hh
    refine ⟨hok.files, fun r hr => hok.events r (q.visible ▸ hr), fun id hid => ?_, fun hl => ⟨hlocked h' hh hl, ?_⟩,
      hok.unlocked⟩
    · obtain ⟨r, hr, heq⟩ := hok.rows id hid
      exact ⟨r, q.visible ▸ hr, heq⟩
    · show h'.share = sumWhere _ log.rows fun r => r.id ∈ slot.resolved ∧ _
      rw [hresolved, q.sums]
      exact (hok.locked hl).2

/-- A turn that has applied nothing leaves the events applied so far alone. -/
theorem StorageInv.quiet_of_nil (h : StorageInv opts w) (q : w.Quiet log) {slot : ConsumerSlot}
    (hstore : { w with log, verbs := w.verbs }.StoreInv) (hslot : SlotInv perEventConsumer opts [] log slot)
    (hresolved : slot.resolved = w.slot.resolved) (hfetched : w.FetchedOk slot.turn) (hnone : w.applied = [])
    (hids : (slot.turn.map (·.phase.resolved perEventConsumer)).getD [] = [])
    (hlocked : ∀ h ∈ w.handovers, h.locked = true → slot.turn = none) :
    StorageInv opts { w with log, slot, applied := [] } := by
  have hquiet := h.quiet q hstore hslot hresolved hfetched ((congrArg _ hnone).trans hids.symm) hlocked
  rw [hnone] at hquiet
  exact hquiet

/-- A step that changes no row of the log. -/
theorem StorageInv.quiet_of_rows (h : StorageInv opts w) (hwf : log.WF) (hpruned : log.pruned = w.log.pruned)
    (hext : w.log.Ext log) (hvisible : log.visibleRows = w.log.visibleRows) (hrows : log.rows = w.log.rows) :
    w.Quiet log where
  wf := hwf
  pruned := hpruned.trans h.store.pruned
  ext := hext
  visible := hvisible
  rows r hr _ := hrows ▸ hr
  counted := hrows ▸ h.counted
  sums ids := by rw [hrows]

/-- Another event is inserted. -/
theorem StorageInv.quiet_insert (h : StorageInv opts w) {id : ℕ} {ev : NewEvent}
    (ht : ev.aggregateType ≠ fileRefAggregateType) (hx : w.log.Writing x) (hd : (id, x) ∈ w.log.draws)
    (hn : ∀ r ∈ w.log.rows, r.id ≠ id) (hext : w.log.Ext log)
    (hlog : log = { w.log with rows := Log.insertRow (ev.toRow id x) w.log.rows }) : w.Quiet log := by
  subst hlog
  have hfree : (ev.toRow id x).id ∉ w.countedIds := fun hid => by
    obtain ⟨r, hr, heq⟩ := h.counted_row hid
    exact hn r (Log.mem_visibleRows.1 hr).1 heq
  have hcounted := h.counted.insertRow hfree
  refine ⟨h.store.log.insert hd hn, h.store.pruned, hext, Log.visibleRows_insert h.store.log hx hd hn,
    fun r hr ht' => ?_, hcounted, fun ids => ?_⟩
  · rcases Log.mem_insertRow.1 hr with rfl | hr
    · exact absurd ht' ht
    · exact hr
  · have hperm : (Log.insertRow (ev.toRow id x) w.log.rows).Perm (ev.toRow id x :: w.log.rows) :=
      List.perm_orderedInsert _ _ _
    rw [sumWhere, (hperm.map _).sum_eq, List.map_cons, List.sum_cons,
      if_neg fun hr => hfree (List.mem_append_left _ hr.1), zero_add, sumWhere]

/-! ## The end of a writer's transaction -/

/-- What the commit of a transaction with its verbs shows. -/
structure Shown (w : StorageWorld) (x : ℕ) (log : Log) : Prop where
  visible : ∀ r, r ∈ log.visibleRows ↔ r ∈ w.log.visibleRows ∨ (r ∈ w.log.rows ∧ r.xid = x)
  /-- An event that it shows is a verb's. -/
  verb : ∀ r ∈ w.log.rows, r.aggregateType = fileRefAggregateType → r.xid = x →
    ∃ v ∈ w.verbs, v.xid = x ∧ v.eventId = r.id ∧ r.IsOfFile v.fileId
  /-- It shows no event before one of the same file that was seen. -/
  above : ∀ r ∈ w.log.visibleRows, ∀ p ∈ log.visibleRows, p.SameFile r → p.id < r.id → p ∈ w.log.visibleRows
  others : ∀ fileId, (∀ v ∈ w.verbs, v.xid = x → v.fileId ≠ fileId) → log.fileRows fileId = w.log.fileRows fileId
  verbs : ∀ v ∈ w.verbs, v.xid = x → ∃ r, r.id = v.eventId ∧ r.tenantId = v.tenantId ∧
    log.fileRows v.fileId = w.log.fileRows v.fileId ++ [r]

theorem StoreInv.shown (h : w.StoreInv) (hx : w.log.Writing x) (hwf : log.WF)
    (hlog : log = { w.log with xacts := w.log.xacts.commit x }) : w.Shown x log := by
  have hvisible : ∀ r, r ∈ log.visibleRows ↔ r ∈ w.log.visibleRows ∨ (r ∈ w.log.rows ∧ r.xid = x) := fun r => by
    rw [hlog]
    exact Log.mem_visibleRows_commit h.pruned
  have hverb : ∀ r ∈ w.log.rows, r.aggregateType = fileRefAggregateType → r.xid = x →
      ∃ v ∈ w.verbs, v.xid = x ∧ v.eventId = r.id ∧ r.IsOfFile v.fileId := by
    intro r hr ht hrx
    obtain ⟨v, hv, hid, hvx⟩ := h.owned r hr ht (hrx ▸ hx.2)
    obtain ⟨r', hr', hid', -, hfile, -⟩ := (h.verbs v hv).row
    exact ⟨v, hv, hvx.trans hrx, hid, h.log.id_inj hr' hr (hid'.trans hid) ▸ hfile⟩
  have hsorted := hwf.visibleRows_sorted
  refine ⟨hvisible, hverb, fun r hr p hp hsame hlt => ?_, fun fileId hne => ?_, fun v hv hvx => ?_⟩
  · refine ((hvisible p).1 hp).resolve_right fun ⟨hp, hpx⟩ => ?_
    obtain ⟨v, hv, -, hid, hfile⟩ := hverb p hp hsame.1 hpx
    have hle := (h.verbs v hv).top r (Log.mem_visibleRows.1 hr).1 ⟨hsame.2.1, hsame.2.2.symm.trans hfile.2⟩
    omega
  · refine eq_of_mem_iff (hsorted.sublist List.filter_sublist)
      (h.log.visibleRows_sorted.sublist List.filter_sublist) fun r => ?_
    show r ∈ log.fileRows fileId ↔ r ∈ w.log.fileRows fileId
    rw [Log.mem_fileRows, Log.mem_fileRows, hvisible]
    refine and_congr_left fun hfile => or_iff_left fun ⟨hr, hrx⟩ => ?_
    obtain ⟨v, hv, hvx, -, hfile'⟩ := hverb r hr hfile.1 hrx
    exact hne v hv hvx (hfile'.2.symm.trans hfile.2)
  · obtain ⟨r, hr, hid, hrx, hfile, htenant⟩ := (h.verbs v hv).row
    have hrx : r.xid = x := hrx.trans hvx
    refine ⟨r, hid, htenant, eq_append_top (hsorted.sublist List.filter_sublist)
      (h.log.visibleRows_sorted.sublist List.filter_sublist) (fun p hp => ?_) fun p => ?_⟩
    · obtain ⟨hp, hpfile⟩ := Log.mem_fileRows.1 hp
      obtain ⟨hp, hpx, -⟩ := Log.mem_visibleRows.1 hp
      refine lt_of_le_of_ne (hid ▸ (h.verbs v hv).top p hp hpfile) fun heq => ?_
      have hsame := h.log.id_inj hp hr heq
      exact h.log.xacts.disjoint x (hrx ▸ hsame ▸ hpx) hx.2
    · show p ∈ log.fileRows v.fileId ↔ p ∈ w.log.fileRows v.fileId ∨ p = r
      rw [Log.mem_fileRows, Log.mem_fileRows, hvisible, or_and_right]
      refine or_congr_right ⟨fun ⟨⟨hp, hpx⟩, hpfile⟩ => ?_, fun he => ?_⟩
      · -- the file has one verb in progress
        obtain ⟨v', hv', hvx', hid', hfile'⟩ := hverb p hp hpfile.1 hpx
        have hvv : v' = v := h.verb_unique hv' hv (hfile'.2.symm.trans hpfile.2)
        exact h.log.id_inj hp hr (hid'.symm.trans ((congrArg _ hvv).trans hid.symm))
      · rw [he]
        exact ⟨⟨hr, hrx⟩, hfile⟩

/-- The history of the file of a verb that commits. -/
theorem StoreInv.fileOk_of_verb (h : w.StoreInv) (hv : v ∈ w.verbs) (hrow : w'.fileRef v.fileId =
      v.after (w.fileRef v.fileId))
    (hpayload : w'.payload = w.payload) (hr : r.id = v.eventId) (ht : r.tenantId = v.tenantId)
    (hrows : w'.log.fileRows v.fileId = w.log.fileRows v.fileId ++ [r])
    (hok : ∀ f, w.fileRef v.fileId = some f → v.tenantId = f.tenantId ∧ (v.event = .forgotten → f.isDeleted = true)) :
    w'.FileOk v.fileId := by
  obtain ⟨state, tenantId, hreplay, htenant, hmatch⟩ := h.files v.fileId
  have hfits := (h.verbs v hv).fits
  have hevents : w'.log.fileEvents w'.payload v.fileId = w.log.fileEvents w.payload v.fileId ++ [v.event] := by
    rw [Log.fileEvents, hrows, hpayload, List.filterMap_append, Log.fileEvents]
    simp [hr, (h.verbs v hv).event]
  -- the rows of a file that has a row are that row's tenant's, like the event of the verb
  have hsome : ∀ f, w.fileRef v.fileId = some f → state = f.state ∧
      ∀ p ∈ w'.log.fileRows v.fileId, p.tenantId = f.tenantId := by
    intro f hf
    rw [hf] at hmatch
    refine ⟨hmatch.1, fun p hp => ?_⟩
    rw [hrows, List.mem_append, List.mem_singleton] at hp
    rcases hp with hp | rfl
    · exact (htenant p hp).trans hmatch.2
    · exact ht.trans (hok f hf).1
  unfold FileOk
  rw [hevents, FileRefState.replay_concat, hreplay, Option.bind_some, hrow]
  unfold FileRefVerb.Fits at hfits
  unfold FileRefVerb.after
  split at hfits
  · next size he =>
    obtain ⟨hnone, hnil⟩ := hfits
    have hstate : state = .absent := by
      rw [Log.fileEvents, hnil] at hreplay
      exact (Option.some.inj hreplay).symm
    subst hstate
    rw [he]
    refine ⟨.live size, v.tenantId, rfl, fun p hp => ?_, rfl, rfl⟩
    rw [hrows, hnil, List.nil_append, List.mem_singleton] at hp
    exact hp ▸ ht
  · next size he =>
    obtain ⟨f, hf, hlive, rfl⟩ := hfits
    obtain ⟨rfl, hall⟩ := hsome f hf
    rw [he, hf]
    exact ⟨.deleted f.size, f.tenantId, by simp [StoredFileRef.state, hlive, FileRefState.next], hall,
      by simp [StoredFileRef.state], rfl⟩
  · next size he =>
    obtain ⟨f, hf, hdeleted, rfl⟩ := hfits
    obtain ⟨rfl, hall⟩ := hsome f hf
    rw [he, hf]
    exact ⟨.live f.size, f.tenantId, by simp [StoredFileRef.state, hdeleted, FileRefState.next], hall,
      by simp [StoredFileRef.state], rfl⟩
  · next he =>
    obtain ⟨f, hf⟩ := hfits
    obtain ⟨rfl, hall⟩ := hsome f hf
    have hdeleted := (hok f hf).2 he
    rw [he]
    exact ⟨.forgotten, f.tenantId, by simp [StoredFileRef.state, hdeleted, FileRefState.next], hall, rfl⟩

/-- The commit of a transaction with its verbs. -/
theorem StorageInv.commitWriter (h : StorageInv opts w) (hx : w.log.Writing x) (hwait : ¬ w.Waits (.commit x))
    (hok : w.StorageOk (.writer (.commit x))) (hwf : log.WF) (hext : w.log.Ext log)
    (hreading : ∀ t, w.slot.turn = some t → log.Reading t.xid)
    (hlog : log = { w.log with xacts := w.log.xacts.commit x }) : StorageInv opts (w.afterWriter log (.commit x)) := by
  have hshown := h.store.shown hx hwf hlog
  have hrows : log.rows = w.log.rows := by rw [hlog]
  obtain ⟨hnodup, hkept, hafter⟩ := foldl_applyEntityEvent h.store.nodup
    (h.store.apart.sublist (List.filter_sublist (p := fun v => v.xid = x))) fun v hv n he => by
      have hfits := (h.store.verbs v (List.mem_of_mem_filter hv)).fits
      rw [FileRefVerb.Fits, he] at hfits
      exact hfits.1
  set w' := w.afterWriter log (.commit x) with hw'
  have hmem : ∀ v, v ∈ w.verbs.filter (fun v => v.xid = x) ↔ v ∈ w.verbs ∧ v.xid = x := fun v => by simp
  -- a file without a verb of the transaction is as it was
  have hother : ∀ fileId, (∀ v ∈ w.verbs, v.xid = x → v.fileId ≠ fileId) →
      w'.fileRef fileId = w.fileRef fileId := fun fileId hne =>
    hkept fileId fun v hv => hne v ((hmem v).1 hv).1 ((hmem v).1 hv).2
  have hself : ∀ v ∈ w.verbs, v.xid = x → w'.fileRef v.fileId = v.after (w.fileRef v.fileId) := fun v hv hvx =>
    hafter v ((hmem v).2 ⟨hv, hvx⟩)
  have hverbs : ∀ v, v ∈ w'.verbs ↔ v ∈ w.verbs ∧ v.xid ≠ x := fun v => by simp [hw', afterWriter]
  have hrunning : ∀ y, y ∈ log.xacts.running ↔ y ≠ x ∧ y ∈ w.log.xacts.running := fun y => by
    rw [hlog]
    exact h.store.log.xacts.nodup.mem_erase_iff
  have happart : ∀ v ∈ w'.verbs, ∀ v' ∈ w.verbs, v'.xid = x → v'.fileId ≠ v.fileId := fun v hv v' hv' hvx he => by
    obtain ⟨hv, hne⟩ := (hverbs v).1 hv
    exact hne (h.store.verb_unique hv' hv he ▸ hvx)
  have hstore : w'.StoreInv := by
    refine ⟨hwf, by rw [hw', afterWriter, hlog]; exact h.store.pruned, hnodup, fun id event he => ?_,
      fun r hr => h.store.payload_some r (hrows ▸ hr), fun v hv => ?_, h.store.apart.sublist List.filter_sublist,
      fun r hr ht hrx => ?_, fun fileId => ?_⟩
    · obtain ⟨r, hr, hid⟩ := h.store.payload_row id event he
      exact ⟨r, hrows.symm ▸ hr, hid⟩
    · obtain ⟨hv', hne⟩ := (hverbs v).1 hv
      have hvok := h.store.verbs v hv'
      obtain ⟨r, hr, hrow⟩ := hvok.row
      refine ⟨⟨r, hrows.symm ▸ hr, hrow⟩, hvok.event, (hrunning _).2 ⟨hne, hvok.running⟩,
        fun r hr => hvok.top r (hrows ▸ hr), ?_⟩
      rw [hother v.fileId (happart v hv)]
      show v.Fits _ (log.fileRows v.fileId)
      rw [hshown.others v.fileId (happart v hv)]
      exact hvok.fits
    · obtain ⟨hne, hrx⟩ := (hrunning _).1 hrx
      obtain ⟨v, hv, hid, hvx⟩ := h.store.owned r (hrows ▸ hr) ht hrx
      exact ⟨v, (hverbs v).2 ⟨hv, hvx ▸ hne⟩, hid, hvx⟩
    · by_cases hv : ∃ v ∈ w.verbs, v.xid = x ∧ v.fileId = fileId
      · obtain ⟨v, hv, hvx, rfl⟩ := hv
        obtain ⟨r, hid, htenant, hfile⟩ := hshown.verbs v hv hvx
        exact h.store.fileOk_of_verb hv (hself v hv hvx) rfl hid htenant hfile fun f hf =>
          hok v hv hvx f (KeyedRows.mem_of_lookup hf) (KeyedRows.key_of_lookup hf)
      · have hne : ∀ v ∈ w.verbs, v.xid = x → v.fileId ≠ fileId := fun v hv' hvx he => hv ⟨v, hv', hvx, he⟩
        exact (h.store.files fileId).congr (hshown.others fileId hne) (fun _ _ => rfl) (hother fileId hne)
  -- what follows a seen event is what followed it
  have hfollows : ∀ {ids : List ℕ} {r : EventRow}, r ∈ w.log.visibleRows → w.Follows ids r → w'.Follows ids r :=
    fun hr hf p hp hsame hlt => hf p (hshown.above _ hr p hp hsame hlt) hsame hlt
  have hseen : ∀ {r : EventRow}, r ∈ w.log.visibleRows → r ∈ w'.log.visibleRows := fun hr =>
    (hshown.visible _).2 (.inl hr)
  refine ⟨hstore, h.slot.ext h.store.log hwf hext hreading, fun r hr hid => ?_, fun t ht xminNow events he r hr => ?_,
    ⟨h.applied.ids, fun r hr => hseen (h.applied.visible r hr), fun before r after he => ?_⟩, ?_, fun h' hh => ?_,
    h.apart⟩
  · have hr' := h.visible_of_resolved (hrows ▸ (Log.mem_visibleRows.1 hr).1) hid
    exact hfollows hr' (h.order r hr' hid)
  · obtain ⟨hv, hf⟩ := h.fetched t ht xminNow events he r hr
    exact ⟨hseen hv, hfollows hv hf⟩
  · exact hfollows (h.applied.visible r (he ▸ List.mem_append_right _ (.head _))) (h.applied.follows before r after he)
  · show Counted w.payload log.rows w.countedIds w.usage
    rw [hrows]
    exact h.counted
  · have hh' := h.handovers h' hh
    -- the transaction has no verb of a file whose row the handover has locked
    have hfree : ∀ fileId ∈ h'.fileIds, ∀ v ∈ w.verbs, v.xid = x → v.fileId ≠ fileId := fun fileId hf v hv hvx he =>
      hwait ⟨v, hv, hvx, h', hh, he ▸ hf⟩
    refine ⟨fun fileId hf => ?_, fun r hr => ?_, fun id hid => ?_, fun hl => ?_, hh'.unlocked⟩
    · rw [hother fileId (hfree fileId hf)]
      exact hh'.files fileId hf
    · rcases (hshown.visible r).1 hr with hr | ⟨hr, hrx⟩
      · exact hh'.events r hr
      · refine iff_of_false (fun hid => ?_) fun ⟨ht, hf⟩ => ?_
        · obtain ⟨r', hr', heq⟩ := hh'.rows r.id hid
          have hsame := h.store.log.id_inj (Log.mem_visibleRows.1 hr').1 hr heq
          exact h.store.log.xacts.disjoint x (hrx ▸ hsame ▸ (Log.mem_visibleRows.1 hr').2.1) hx.2
        · obtain ⟨v, hv, hvx, -, hfile⟩ := hshown.verb r hr ht hrx
          exact hfree _ hf v hv hvx hfile.2.symm
    · obtain ⟨r, hr, heq⟩ := hh'.rows id hid
      exact ⟨r, hseen hr, heq⟩
    · refine ⟨(hh'.locked hl).1, ?_⟩
      show h'.share = sumWhere _ log.rows _
      rw [hrows]
      exact (hh'.locked hl).2

/-- A step of a transaction. -/
theorem StorageInv.writer (h : StorageInv opts w) {a : LogAct} (hwait : ¬ w.Waits a) (hok : w.StorageOk (.writer a))
    (hs : w.log.step a = some log) : StorageInv opts (w.afterWriter log a) := by
  have hwf := h.store.log.step hs
  have hext := Log.ext_step hs
  have hpruned := Log.step_pruned hs
  have hreading : ∀ t, w.slot.turn = some t → log.Reading t.xid := fun t ht =>
    (h.slot.turn_xid t ht).step h.store.log hs
  have hslot := h.slot.ext h.store.log hwf hext hreading
  have hlocked : ∀ h' ∈ w.handovers, h'.locked = true → w.slot.turn = none := fun h' hh hl =>
    ((h.handovers h' hh).locked hl).1
  have hrun : ∀ v ∈ w.verbs, v.xid ∈ w.log.xacts.running := fun v hv => (h.store.verbs v hv).running
  have keep (q : w.Quiet log) {verbs : List FileRefVerb} (hsub : verbs.Sublist w.verbs)
      (hrunning : ∀ v ∈ verbs, v.xid ∈ log.xacts.running)
      (howned : ∀ v ∈ w.verbs, v.xid ∈ log.xacts.running → v ∈ verbs) : StorageInv opts { w with log, verbs } :=
    h.quiet q (h.store.quiet q hsub hrunning howned fun y hy hlt => hext.xacts.running y hy hlt) hslot rfl h.fetched
      h.applied.ids hlocked
  rcases Log.step_cases hs with ⟨rfl, hl⟩ | ⟨y, rfl, hy, hl⟩ | ⟨y, id, ev, rfl, hy, hd, hn, hl⟩ | ⟨y, rfl, hy, hl⟩ |
    ⟨y, rfl, hy, hl⟩
  · exact keep (h.quiet_of_rows hwf hpruned hext (by subst hl; rfl) (by rw [hl])) (.refl _)
      (fun v hv => by rw [hl]; exact .tail _ (hrun v hv)) fun v hv _ => hv
  · exact keep (h.quiet_of_rows hwf hpruned hext (by subst hl; rfl) (by rw [hl])) (.refl _)
      (fun v hv => by rw [hl]; exact hrun v hv) fun v hv _ => hv
  · exact keep (h.quiet_insert (fun ht => hwait ht) hy hd hn hext hl) (.refl _)
      (fun v hv => by rw [hl]; exact hrun v hv) fun v hv _ => hv
  · exact h.commitWriter hy hwait hok hwf hext hreading hl
  · have hmem : ∀ z, z ∈ log.xacts.running ↔ z ≠ y ∧ z ∈ w.log.xacts.running := fun z => by
      rw [hl]
      exact h.store.log.xacts.nodup.mem_erase_iff
    refine keep (h.quiet_of_rows hwf hpruned hext (by subst hl; rfl) (by rw [hl])) List.filter_sublist (fun v hv => ?_)
      fun v hv hrunning => List.mem_filter.2 ⟨hv, decide_eq_true ((hmem _).1 hrunning).1⟩
    rw [List.mem_filter, decide_eq_true_eq] at hv
    exact (hmem _).2 ⟨hv.2, hrun v hv.1⟩

/-! ## A verb appends its event -/

/-- The event of a verb is that of the row it has read. -/
theorem fits_of_event {change : FileRefChange} {row : Option StoredFileRef} {tenantId : String} {event : FileRefEvent}
    {rows : List EventRow} (he : change.event row = some (tenantId, event)) (hv : v.event = event)
    (hnew : ∀ t n, change = .create t n → rows = []) : v.Fits row rows := by
  subst hv
  unfold FileRefVerb.Fits
  cases change with
  | create t n =>
    simp only [FileRefChange.event, Option.ite_none_right_eq_some, Option.some.injEq, Prod.mk.injEq,
      Option.isNone_iff_eq_none] at he
    rw [← he.2.2]
    exact ⟨he.1, hnew t n rfl⟩
  | delete =>
    obtain ⟨f, hf, hevent⟩ := Option.bind_eq_some_iff.1 he
    simp only [Option.ite_none_left_eq_some, Option.some.injEq, Prod.mk.injEq, Bool.not_eq_true] at hevent
    rw [← hevent.2.2]
    exact ⟨f, hf, hevent.1, rfl⟩
  | restore =>
    obtain ⟨f, hf, hevent⟩ := Option.bind_eq_some_iff.1 he
    simp only [Option.ite_none_right_eq_some, Option.some.injEq, Prod.mk.injEq] at hevent
    rw [← hevent.2.2]
    exact ⟨f, hf, hevent.1, rfl⟩
  | forget =>
    obtain ⟨f, hf, hevent⟩ := Option.map_eq_some_iff.1 he
    rw [← (Prod.mk.inj hevent).2]
    exact ⟨f, hf⟩

theorem StorageInv.verb (h : StorageInv opts w) {id : ℕ} {change : FileRefChange} {tenantId : String}
    {event : FileRefEvent} (hfree : w.VerbFree id fileId change)
    (he : change.event (w.fileRef fileId) = some (tenantId, event)) (hv : v = ⟨x, id, fileId, tenantId, event⟩)
    (hs : w.log.step (.insert x id (w.verbEvent v)) = some log) :
    StorageInv opts
      { w with log, payload := Function.update w.payload id (some event), verbs := v :: w.verbs } := by
  subst hv
  set v : FileRefVerb := ⟨x, id, fileId, tenantId, event⟩ with hv
  set w' : StorageWorld :=
    { w with log, payload := Function.update w.payload id (some event), verbs := v :: w.verbs } with hw'
  have hwf := h.store.log.step hs
  have hext := Log.ext_step hs
  have hpruned := (Log.step_pruned hs).trans h.store.pruned
  obtain ⟨hbusy, habove, hnew⟩ := hfree
  simp only [Log.step, Option.ite_none_right_eq_some, Option.some.injEq] at hs
  obtain ⟨⟨hx, hd, hn⟩, hlog⟩ := hs
  set row : EventRow := (w.verbEvent v).toRow id x with hrow
  have hrows : log.rows = Log.insertRow row w.log.rows := by rw [← hlog]
  have hmem : ∀ r, r ∈ log.rows ↔ r = row ∨ r ∈ w.log.rows := fun r => by
    rw [hrows]
    exact Log.mem_insertRow
  have hvisible : log.visibleRows = w.log.visibleRows := by
    rw [← hlog]
    exact Log.visibleRows_insert h.store.log hx hd hn
  have hfile : ∀ f, log.fileRows f = w.log.fileRows f := fun f => by rw [Log.fileRows, hvisible, Log.fileRows]
  have hxacts : log.xacts = w.log.xacts := by rw [← hlog]
  -- the id is new, so nothing that was known is about it
  have hpayload : ∀ r ∈ w.log.rows, w'.payload r.id = w.payload r.id := fun r hr =>
    Function.update_of_ne (hn r hr) ..
  have hid : id ∉ w.countedIds := fun hid => by
    obtain ⟨r, hr, heq⟩ := h.counted_row hid
    exact hn r (Log.mem_visibleRows.1 hr).1 heq
  have hstore : w'.StoreInv := by
    refine ⟨hwf, hpruned, h.store.nodup, fun id' event' he' => ?_, fun r hr ht => ?_, fun v' hv' => ?_,
      List.pairwise_cons.2 ⟨fun v' hv' he' => hbusy v' hv' he'.symm, h.store.apart⟩, fun r hr ht hrx => ?_,
      fun f => (h.store.files f).congr (hfile f)
        (fun r hr => hpayload r (Log.mem_visibleRows.1 (Log.mem_fileRows.1 hr).1).1) rfl⟩
    · by_cases heq : id' = id
      · exact ⟨row, (hmem row).2 (.inl rfl), heq.symm, rfl⟩
      · have he' : w.payload id' = some event' := (Function.update_of_ne heq ..).symm.trans he'
        obtain ⟨r, hr, hrow⟩ := h.store.payload_row id' event' he'
        exact ⟨r, (hmem r).2 (.inr hr), hrow⟩
    · rcases (hmem r).1 hr with rfl | hr
      · exact ⟨event, Function.update_self ..⟩
      · rw [hpayload r hr]
        exact h.store.payload_some r hr ht
    · rcases List.mem_cons.1 hv' with rfl | hv'
      · refine ⟨⟨row, (hmem row).2 (.inl rfl), rfl, rfl, ⟨rfl, rfl⟩, rfl⟩, Function.update_self .., hxacts ▸ hx.2,
          fun r hr hf => ?_, ?_⟩
        · rcases (hmem r).1 hr with rfl | hr
          · exact le_rfl
          · exact (habove r hr hf).le
        · refine fits_of_event he rfl fun t n hc => ?_
          subst hc
          show log.fileRows fileId = []
          rw [hfile, List.eq_nil_iff_forall_not_mem]
          intro r hr
          obtain ⟨hr, hf⟩ := Log.mem_fileRows.1 hr
          exact hnew r (Log.mem_visibleRows.1 hr).1 hf
      · have hok := h.store.verbs v' hv'
        obtain ⟨r, hr, hrid, hr'⟩ := hok.row
        refine ⟨⟨r, (hmem r).2 (.inr hr), hrid, hr'⟩, ?_, hxacts ▸ hok.running, fun r hr hf => ?_, ?_⟩
        · rw [← hrid, hpayload r hr, hrid]
          exact hok.event
        · rcases (hmem r).1 hr with rfl | hr
          · exact absurd hf.2.symm (hbusy v' hv')
          · exact hok.top r hr hf
        · show v'.Fits _ (log.fileRows v'.fileId)
          rw [hfile]
          exact hok.fits
    · rcases (hmem r).1 hr with rfl | hr
      · exact ⟨v, .head _, rfl, rfl⟩
      · obtain ⟨v', hv', hv''⟩ := h.store.owned r hr ht (hxacts ▸ hrx)
        exact ⟨v', .tail _ hv', hv''⟩
  have hfollows : ∀ {ids : List ℕ} {r : EventRow}, w.Follows ids r → w'.Follows ids r := fun hf p hp =>
    hf p (hvisible ▸ hp)
  have hslot := h.slot.ext h.store.log hwf hext fun t ht => by
    have hr := h.slot.turn_xid t ht
    rw [← hlog]
    exact hr
  refine ⟨hstore, hslot, fun r hr hid => hfollows (h.order r (hvisible ▸ hr) hid),
    fun t ht xminNow events he r hr => ?_, ⟨h.applied.ids, fun r hr => hvisible ▸ h.applied.visible r hr,
      h.applied.follows.mono fun before r => hfollows⟩, ?_, fun h' hh => ?_, h.apart⟩
  · obtain ⟨hv, hf⟩ := h.fetched t ht xminNow events he r hr
    exact ⟨hvisible ▸ hv, hfollows hf⟩
  · show Counted (Function.update w.payload id (some event)) log.rows _ _
    rw [hrows]
    exact (h.counted.insertRow hid).update hid
  · have hh' := h.handovers h' hh
    refine ⟨hh'.files, fun r hr => hh'.events r (hvisible ▸ hr), fun id hid => ?_, fun hl => ⟨(hh'.locked hl).1, ?_⟩,
      hh'.unlocked⟩
    · obtain ⟨r, hr, heq⟩ := hh'.rows id hid
      exact ⟨r, hvisible ▸ hr, heq⟩
    · rw [(hh'.locked hl).2]
      have hperm : (Log.insertRow row w.log.rows).Perm (row :: w.log.rows) := List.perm_orderedInsert _ _ _
      show _ = sumWhere (storageDelta w'.payload) log.rows fun r => r.id ∈ w.slot.resolved ∧ r.id ∈ h'.eventIds
      rw [hrows, sumWhere, sumWhere, (hperm.map _).sum_eq, List.map_cons, List.sum_cons,
        if_neg fun hr => hid (List.mem_append_left _ hr.1), zero_add]
      refine congrArg _ (List.map_congr_left fun r hr => ?_)
      rw [storageDelta, storageDelta, hpayload r hr]

/-! ## What has been applied of a file -/

/-- Only events of files move a counter. -/
theorem StoreInv.fileType_of_delta (h : w.StoreInv) (hr : r ∈ w.log.rows) (hne : storageDelta w.payload r ≠ 0) :
    r.aggregateType = fileRefAggregateType := by
  cases hp : w.payload r.id with
  | none => exact absurd (by rw [storageDelta, hp, Option.bind_none, Option.getD_none]) hne
  | some event =>
    obtain ⟨r', hr', hid, ht⟩ := h.payload_row _ _ hp
    exact h.log.id_inj hr' hr hid ▸ ht

/-- The applied events of a file, where they are a beginning of its history, make up its share. -/
theorem StoreInv.fileShare_eq (h : w.StoreInv) (hvisible : ∀ r ∈ w.log.rows, r.id ∈ ids → r ∈ w.log.visibleRows)
    (hclosed : ∀ a ∈ w.log.fileRows fileId, ∀ b ∈ w.log.fileRows fileId, a.id < b.id → b.id ∈ ids → a.id ∈ ids) :
    ∃ state tenantId,
      FileRefState.replay (((w.log.fileRows fileId).filter (·.id ∈ ids)).filterMap fun r => w.payload r.id) =
        some state ∧
      (∀ r ∈ w.log.fileRows fileId, r.tenantId = tenantId) ∧
      ∀ t, fileShare w.payload w.log.rows ids t fileId = if t = tenantId then state.share else 0 := by
  obtain ⟨full, tenantId, hreplay, htenant, -⟩ := h.files fileId
  have hsorted : (w.log.fileRows fileId).Pairwise fun a b => a.id < b.id :=
    h.log.visibleRows_sorted.sublist List.filter_sublist
  obtain ⟨state, hstate⟩ := FileRefState.replay_of_prefix hreplay
    ((prefix_of_closed (p := fun r : EventRow => r.id ∈ ids) hsorted hclosed).filterMap _)
  refine ⟨state, tenantId, hstate, htenant, fun t => ?_⟩
  have hselect : fileShare w.payload w.log.rows ids t fileId = sumWhere (storageDelta w.payload) w.log.rows
      fun r => ((r.id ∈ ids ∧ r.IsOfFile fileId) ∧ w.log.Visible r) ∧ r.tenantId = t := by
    refine sumWhere_congr_of_ne fun r hr hne => ⟨?_, ?_⟩
    · rintro ⟨⟨hid, ht⟩, hagg⟩
      exact ⟨⟨⟨hid, h.fileType_of_delta hr hne, hagg⟩, (Log.mem_visibleRows.1 (hvisible r hr hid)).2⟩, ht⟩
    · rintro ⟨⟨⟨hid, hfile⟩, -⟩, ht⟩
      exact ⟨⟨hid, ht⟩, hfile.2⟩
  rw [hselect]
  by_cases ht : t = tenantId
  · subst ht
    have hrows : (w.log.fileRows fileId).filter (fun r => r.id ∈ ids) = w.log.rows.filter
        fun r => ((r.id ∈ ids ∧ r.IsOfFile fileId) ∧ w.log.Visible r) ∧ r.tenantId = t := by
      rw [Log.fileRows, Log.visibleRows, List.filter_filter, List.filter_filter]
      refine List.filter_congr fun r hr => ?_
      rw [← Bool.decide_and, ← Bool.decide_and, decide_eq_decide]
      refine (and_iff_left_of_imp fun h => ?_).symm
      exact htenant r (Log.mem_fileRows.2 ⟨Log.mem_visibleRows.2 ⟨hr, h.2⟩, h.1.2⟩)
    rw [if_pos rfl, ← FileRefState.share_replay hstate, ← sum_storageDelta, hrows, ← sumWhere_eq_filter]
  · rw [if_neg ht]
    refine sumWhere_eq_zero fun r hr h => absurd ?_ ht
    exact h.2.symm.trans (htenant r (Log.mem_fileRows.2 ⟨Log.mem_visibleRows.2 ⟨hr, h.1.2⟩, h.1.1.2⟩))

/-- The next event of a file is applied; a delete finds the file live. -/
theorem StoreInv.share_of_deleted (h : w.StoreInv) {n : ℕ} (hr : r ∈ w.log.visibleRows) (hn : r.id ∉ ids)
    (hp : w.payload r.id = some (.deleted n))
    (hvisible : ∀ r ∈ w.log.rows, r.id ∈ ids → r ∈ w.log.visibleRows)
    (hclosed : ∀ a ∈ w.log.visibleRows, ∀ b ∈ w.log.visibleRows, a.SameFile b → a.id < b.id → b.id ∈ ids ++ [r.id] →
      a.id ∈ ids) :
    fileShare w.payload w.log.rows ids r.tenantId r.aggregateId ≠ 0 := by
  have hmem := (Log.mem_visibleRows.1 hr).1
  obtain ⟨r', hr', hid, htype⟩ := h.payload_row _ _ hp
  have hfile : r.IsOfFile r.aggregateId := ⟨h.log.id_inj hr' hmem hid ▸ htype, rfl⟩
  have hrow := Log.mem_fileRows.2 ⟨hr, hfile⟩
  have hin : ∀ a ∈ w.log.fileRows r.aggregateId, ∀ b ∈ w.log.fileRows r.aggregateId, a.id < b.id →
      b.id ∈ ids ++ [r.id] → a.id ∈ ids := fun a ha b hb hlt hid => by
    obtain ⟨ha, hfa⟩ := Log.mem_fileRows.1 ha
    obtain ⟨hb, hfb⟩ := Log.mem_fileRows.1 hb
    exact hclosed a ha b hb ⟨hfa.1, hfb.1, hfa.2.trans hfb.2.symm⟩ hlt hid
  obtain ⟨state, tenantId, hstate, htenant, hshare⟩ := h.fileShare_eq hvisible fun a ha b hb hlt hid =>
    hin a ha b hb hlt (List.mem_append_left _ hid)
  have hvisible' : ∀ x ∈ w.log.rows, x.id ∈ ids ++ [r.id] → x ∈ w.log.visibleRows := fun x hx hid => by
    rcases List.mem_append.1 hid with hid | hid
    · exact hvisible x hx hid
    · exact h.log.id_inj hx hmem (List.mem_singleton.1 hid) ▸ hr
  obtain ⟨after, -, hafter, -⟩ := h.fileShare_eq hvisible' fun a ha b hb hlt hid =>
    List.mem_append_left _ (hin a ha b hb hlt hid)
  have hsorted : (w.log.fileRows r.aggregateId).Pairwise fun a b => a.id < b.id :=
    h.log.visibleRows_sorted.sublist List.filter_sublist
  have happend : (w.log.fileRows r.aggregateId).filter (·.id ∈ ids ++ [r.id]) =
      (w.log.fileRows r.aggregateId).filter (·.id ∈ ids) ++ [r] := by
    refine eq_append_top (hsorted.sublist List.filter_sublist) (hsorted.sublist List.filter_sublist)
      (fun a ha => ?_) fun a => ?_
    · obtain ⟨ha, hid⟩ := List.mem_filter.1 ha
      have hid := of_decide_eq_true hid
      rcases Nat.lt_trichotomy a.id r.id with hlt | heq | hgt
      · exact hlt
      · exact absurd (heq ▸ hid) hn
      · exact absurd (hin r hrow a ha hgt (List.mem_append_left _ hid)) hn
    · simp only [List.mem_filter, List.mem_append, List.mem_singleton, decide_eq_true_eq]
      constructor
      · rintro ⟨ha, hid | hid⟩
        · exact .inl ⟨ha, hid⟩
        · exact .inr (h.log.id_inj (Log.mem_visibleRows.1 (Log.mem_fileRows.1 ha).1).1 hmem hid)
      · rintro (⟨ha, hid⟩ | rfl)
        · exact ⟨ha, .inl hid⟩
        · exact ⟨hrow, .inr rfl⟩
  have hone : [r].filterMap (fun r => w.payload r.id) = [.deleted n] := by simp [hp]
  rw [happend, List.filterMap_append, hone, FileRefState.replay_concat, hstate, Option.bind_some] at hafter
  rw [hshare, if_pos (htenant r hrow)]
  exact FileRefState.live_of_deleted hafter

/-! ## The turns -/

/-- A turn shows no event. -/
theorem visibleRows_of_turnStep {l l' : Log} {s s' : ConsumerSlot} {c : EventConsumer} {a : TurnAct}
    (h : TurnStep c opts l s a l' s') (hw : l.WF) (hx : ∀ t, s.turn = some t → l.Reading t.xid) :
    l'.visibleRows = l.visibleRows := by
  cases h with
  | acquire | acquireSkip | readXmin | fetch | deliverNothing | deliver | readXmax | abort => rfl
  | commit ht | commitSkipped ht => exact Log.visibleRows_commit_reading hw (hx _ ht)
  | recordFailure => exact Log.visibleRows_commit_reading hw.claim (Log.reading_claim hw)

/-- The handler has applied the first events of a fetch, and these are resolved. -/
theorem appliedOf_deliverEach (maxAttempts start : ℕ) (answer : EventRow → Option HandlerError) (o : DeliveryOutcome)
    (events : List EventRow) :
    appliedOf (deliverEach perEventConsumer maxAttempts start answer o events).2 <+: events ∧
      (appliedOf (deliverEach perEventConsumer maxAttempts start answer o events).2).map (·.id) =
        resolvedIds perEventConsumer (deliverEach perEventConsumer maxAttempts start answer o events).2 := by
  induction events generalizing o with
  | nil => exact ⟨List.prefix_rfl, rfl⟩
  | cons row rows ih =>
    unfold deliverEach
    cases answer row with
    | none =>
      obtain ⟨hbegin, hids⟩ := ih { o.resolve start row.id with processed := o.processed + 1 }
      refine ⟨List.prefix_cons_inj row |>.2 hbegin, ?_⟩
      show row.id :: _ = _
      rw [resolvedIds_cons]
      exact congrArg _ hids
    | some e => exact ⟨List.nil_prefix, rfl⟩

theorem appliedOf_turnDelivery (opts : DispatcherOptions) (log : Log) (state : ConsumerStateRow) (xminNow : ℕ)
    (events : List EventRow) (answers : HandlerAnswers) :
    appliedOf (turnDelivery perEventConsumer opts log state xminNow events answers).calls <+: events ∧
      (appliedOf (turnDelivery perEventConsumer opts log state xminNow events answers).calls).map (·.id) =
        resolvedIds perEventConsumer (turnDelivery perEventConsumer opts log state xminNow events answers).calls := by
  have hdeliverable : (turnDelivery perEventConsumer opts log state xminNow events answers).deliverable = events :=
    deliverable_of_perEvent rfl
  have hcalls := deliverConsumerTurn_calls
    (turnDelivery perEventConsumer opts log state xminNow events answers) rfl
  rw [hcalls, hdeliverable]
  exact appliedOf_deliverEach ..

/-- What a turn has fetched comes in the order of each file. -/
theorem StorageInv.fetch (h : StorageInv opts w) {state : ConsumerStateRow} {xid xminNow : ℕ}
    (ht : w.slot.turn = some ⟨xid, state, .xminRead xminNow⟩) :
    w.FetchedOk (some ⟨xid, state, .fetched xminNow (selectPendingAndNewEventRows w.log.visibleRows
      state.lastProcessedEventId state.pendingGaps opts.batchSize
      (pendingFetchLimit perEventConsumer opts.batchSize))⟩) := by
  rintro _ ⟨⟩ _ _ ⟨⟩
  obtain ⟨h₁, h₂⟩ := h.slot.turn_state _ ht
  have ho := h.slot.owes
  rw [← h₁, ← h₂] at ho
  have hz : opts.batchSize = 0 → state.pendingGaps = [] := fun hz => h₂.trans (h.slot.batch hz)
  intro r hr
  refine ⟨((fetch_rows h.store.log ho.ordered ho.below hz).2 r hr).1, fun p hp _ hlt => ?_⟩
  have hin := ho.mem_fetch_of_lt h.store.log hz rfl (c := perEventConsumer) hr hp hlt
  exact hin.imp id List.mem_map_of_mem

/-- The events that a turn applies. -/
theorem StorageInv.delivered (h : StorageInv opts w) {state : ConsumerStateRow} {xid xminNow : ℕ}
    {events applied : List EventRow} (ht : w.slot.turn = some ⟨xid, state, .fetched xminNow events⟩)
    (hbegins : applied <+: events) : (∀ r ∈ applied, r ∈ w.log.visibleRows) ∧
      History.Along (fun before r => w.Follows (before.map (·.id)) r) applied := by
  have hfetched := h.fetched _ ht xminNow events rfl
  have hsorted : events.Pairwise fun a b => a.id < b.id := (h.slot.turn_phase _ ht).2.sorted
  refine ⟨fun r hr => (hfetched r (hbegins.subset hr)).1, fun before r after he => ?_⟩
  obtain ⟨rest, rfl⟩ := hbegins
  rw [he, List.append_assoc, List.cons_append] at hfetched hsorted
  have hr : r ∈ before ++ r :: (after ++ rest) := List.mem_append_right _ (.head _)
  intro p hp hsame hlt
  refine ((hfetched r hr).2 p hp hsame hlt).imp_right fun hid => ?_
  obtain ⟨q, hq, hqid⟩ := List.mem_map.1 hid
  -- what comes after an event in the fetch has a higher id
  rcases List.mem_append.1 hq with hq | hq
  · exact List.mem_map.2 ⟨q, hq, hqid⟩
  · exfalso
    have hge : r.id ≤ q.id := by
      rcases List.mem_cons.1 hq with rfl | hq
      · exact le_rfl
      · exact ((List.pairwise_cons.1 (List.pairwise_append.1 hsorted).2.1).1 q hq).le
    omega

/-- The counters after the events of a turn: they are right after each of them. -/
theorem StorageInv.counted_of_turn (h : StorageInv opts w) (hnone : w.applied = []) {applied : List EventRow}
    (hvisible : ∀ r ∈ applied, r ∈ w.log.visibleRows)
    (hfollows : History.Along (fun before r => w.Follows (before.map (·.id)) r) applied)
    (hnodup : (w.slot.resolved ++ applied.map (·.id)).Nodup) :
    Counted w.payload w.log.rows (w.slot.resolved ++ applied.map (·.id))
      (applied.foldl (applyRow w.payload) w.usage) := by
  have hids : (w.log.rows.map (·.id)).Nodup := List.pairwise_map.2 (h.store.log.sorted.imp Nat.ne_of_lt)
  induction applied using List.reverseRecOn with
  | nil =>
    have hcounted := h.counted
    rwa [countedIds, hnone] at hcounted
  | append_singleton before r ih =>
    obtain ⟨hbefore, hr'⟩ := History.along_concat.1 hfollows
    have hseen : ∀ y ∈ before, y ∈ w.log.visibleRows := fun y hy => hvisible y (List.mem_append_left _ hy)
    have hr : r ∈ w.log.visibleRows := hvisible r (List.mem_append_right _ (.head _))
    rw [List.map_append, ← List.append_assoc] at hnodup ⊢
    rw [List.foldl_append]
    have hn : r.id ∉ w.slot.resolved ++ before.map (·.id) := fun hid =>
      (List.nodup_append.1 hnodup).2.2 _ hid _ (.head _) rfl
    refine (ih hseen hbefore hnodup.of_append_left).applyRow hids (Log.mem_visibleRows.1 hr).1 hn fun n hp =>
      h.store.share_of_deleted hr hn hp (fun x hx hid => ?_) fun a ha b hb hsame hlt hid => ?_
    · rcases List.mem_append.1 hid with hid | hid
      · exact h.visible_of_resolved hx hid
      · obtain ⟨y, hy, heq⟩ := List.mem_map.1 hid
        exact h.store.log.id_inj (Log.mem_visibleRows.1 (hseen y hy)).1 hx heq ▸ hseen y hy
    · rcases List.mem_append.1 hid with hid | hid
      · exact h.closed hseen hbefore ha hb hsame hlt hid
      · obtain rfl := h.store.log.id_inj (Log.mem_visibleRows.1 hb).1 (Log.mem_visibleRows.1 hr).1
          (List.mem_singleton.1 hid)
        exact List.mem_append.2 (hr' a ha hsame hlt)

theorem StorageOk.xmax {a : TurnAct} (h : w.StorageOk (.turn a)) : XmaxOk w.log w.slot a := by
  cases a with
  | abort => trivial
  | _ => exact h

theorem StorageInv.onTurn (h : StorageInv opts w) {a : TurnAct} {slot : ConsumerSlot} (hfree : ¬ w.Locked)
    (hok : w.StorageOk (.turn a)) (hs : TurnStep perEventConsumer opts w.log w.slot a log slot) :
    StorageInv opts { w with log, slot, applied := w.appliedAfter slot a, usage := w.usageAfter slot a } := by
  obtain ⟨hext, hwf, hpruned, hrows⟩ := hs.ext h.slot.turn_xid h.store.log
  have hslot := h.slot.step h.store.log hok.xmax hs
  have hvisible := visibleRows_of_turnStep hs h.store.log h.slot.turn_xid
  have q := h.quiet_of_rows hwf hpruned hext hvisible hrows
  have hrun : ∀ v ∈ w.verbs, v.xid ∈ log.xacts.running := by
    intro v hv
    have hvok := h.store.verbs v hv
    obtain ⟨r, hr, hid, hx, -⟩ := hvok.row
    have hwriting : w.log.Writing v.xid := ⟨hx ▸ h.store.log.draw_writer _ (h.store.log.drawn r hr), hvok.running⟩
    exact (hs.writing h.slot.turn_xid h.store.log hwriting).2
  have hstore : { w with log, verbs := w.verbs }.StoreInv :=
    h.store.quiet q (.refl _) hrun (fun v hv _ => hv) fun y hy hlt => hext.xacts.running y hy hlt
  have hlocked : ∀ h' ∈ w.handovers, h'.locked = true → slot.turn = none := fun h' hh hl => absurd ⟨h', hh, hl⟩ hfree
  have handovers (applied : List EventRow) (usage : StorageUsage) :
      ∀ h' ∈ w.handovers, HandoverOk { w with log, slot, applied, usage } h' := fun h' hh => by
    have hok := h.handovers h' hh
    refine ⟨hok.files, fun r hr => hok.events r (hvisible ▸ hr), fun id hid => ?_,
      fun hl => absurd ⟨h', hh, hl⟩ hfree, hok.unlocked⟩
    obtain ⟨r, hr, heq⟩ := hok.rows id hid
    exact ⟨r, hvisible ▸ hr, heq⟩
  -- a turn that has delivered nothing has applied nothing
  have none_of {t : Option Turn} (ht : w.slot.turn = t)
      (hp : (t.map (·.phase.resolved perEventConsumer)).getD [] = []) : w.applied = [] :=
    h.applied.eq_nil (ht ▸ hp)
  cases hs with
  | acquire hn | acquireSkip hn =>
    refine h.quiet q hstore hslot rfl ?_ (h.applied.ids.trans (by rw [hn]; rfl)) hlocked
    rintro _ ⟨⟩ _ _ ⟨⟩
  | readXmin ht =>
    refine h.quiet q hstore hslot rfl ?_ (h.applied.ids.trans (by rw [ht]; rfl)) hlocked
    rintro _ ⟨⟩ _ _ ⟨⟩
  | fetch ht => exact h.quiet q hstore hslot rfl (h.fetch ht) (h.applied.ids.trans (by rw [ht]; rfl)) hlocked
  | deliverNothing ht =>
    exact h.quiet_of_nil q hstore hslot rfl (by rintro _ ⟨⟩ _ _ ⟨⟩) (none_of ht rfl) rfl hlocked
  | @deliver xid xminNow state events answers ht =>
    have hnone := none_of ht rfl
    obtain ⟨hbegins, hids⟩ := appliedOf_turnDelivery opts w.log state xminNow events answers
    obtain ⟨hseen, hfollows⟩ := h.delivered ht hbegins
    obtain ⟨h₁, h₂⟩ := h.slot.turn_state _ ht
    obtain ⟨-, hf, hd, hsub, -⟩ := hslot.turn_phase _ rfl
    rw [h₁] at hf hd
    rw [h₂] at hsub
    have hnodup := h.slot.owes.nodup_resolved hf hd hsub
    rw [← hids] at hnodup
    exact ⟨hstore.of_eq rfl rfl rfl rfl, hslot, h.order, (by rintro _ ⟨⟩ _ _ ⟨⟩), ⟨hids, hseen, hfollows⟩,
      h.counted_of_turn hnone hseen hfollows hnodup, handovers _ _, h.apart⟩
  | readXmax ht =>
    refine h.quiet q hstore hslot rfl ?_ (h.applied.ids.trans (by rw [ht]; rfl)) hlocked
    rintro _ ⟨⟩ _ _ ⟨⟩
  | @commit xid state row resolved burntGaps ht =>
    have hids : w.slot.resolved ++ resolved = w.countedIds :=
      congrArg _ (h.applied.ids.trans (by rw [ht]; rfl)).symm
    refine ⟨hstore.of_eq rfl rfl rfl rfl, hslot, fun r hr hid p hp hsame hlt => .inl ?_, ConsumerSlot.no_turn rfl,
      ⟨rfl, nofun, History.along_nil⟩, ?_, handovers _ _, h.apart⟩
    · exact hids ▸ h.counted_closed (hvisible ▸ hp) (hvisible ▸ hr) hsame hlt (hids ▸ hid)
    · show Counted w.payload w.log.rows (w.slot.resolved ++ resolved ++ []) w.usage
      rw [List.append_nil, hids]
      exact h.counted
  | commitSkipped ht =>
    exact h.quiet_of_nil q hstore hslot rfl (ConsumerSlot.no_turn rfl) (none_of ht rfl) rfl hlocked
  | abort =>
    exact h.quiet_of_nil q hstore hslot rfl (ConsumerSlot.no_turn rfl) hok rfl hlocked
  | recordFailure hn =>
    exact h.quiet q hstore hslot rfl (ConsumerSlot.no_turn hn) h.applied.ids hlocked

/-! ## The handovers -/

theorem StorageInv.handOver (h : StorageInv opts w) {source destination : String} {fileIds : List String}
    (hfree : ¬ w.HandOverWaits (w.movedIds source fileIds)) :
    StorageInv opts { w with handovers :=
      { source, destination, fileIds := w.movedIds source fileIds,
        eventIds := w.movedEventIds source (w.movedIds source fileIds),
        share := appliedShare w.payload w.consumer w.log.visibleRows (w.movedIds source fileIds) source,
        locked := w.registered } :: w.handovers } := by
  set moved := w.movedIds source fileIds with hmoved
  have hfiles : ∀ fileId ∈ moved, ∃ f, w.fileRef fileId = some f ∧ f.tenantId = source := by
    intro fileId hf
    obtain ⟨f, hmem, rfl⟩ := List.mem_map.1 hf
    obtain ⟨hmem, hsource⟩ := List.mem_filter.1 hmem
    exact ⟨f, KeyedRows.lookup_of_mem h.store.nodup hmem, (of_decide_eq_true hsource).1⟩
  have htenant : ∀ r ∈ w.log.visibleRows, r.aggregateType = fileRefAggregateType → r.aggregateId ∈ moved →
      r.tenantId = source := by
    intro r hr ht hf
    obtain ⟨f, hfile, hsource⟩ := hfiles _ hf
    exact (h.store.tenant_of_row hfile (Log.mem_fileRows.2 ⟨hr, ht, rfl⟩)).trans hsource
  have hevents : ∀ r ∈ w.log.visibleRows, r.id ∈ w.movedEventIds source moved ↔
      r.aggregateType = fileRefAggregateType ∧ r.aggregateId ∈ moved := by
    intro r hr
    constructor
    · intro hid
      obtain ⟨r', hr', heq⟩ := List.mem_map.1 hid
      obtain ⟨hr', hsel⟩ := List.mem_filter.1 hr'
      have hsame := h.store.log.id_inj (Log.mem_visibleRows.1 hr').1 (Log.mem_visibleRows.1 hr).1 heq
      exact hsame ▸ (of_decide_eq_true hsel).2
    · rintro ⟨ht, hf⟩
      exact List.mem_map_of_mem (List.mem_filter.2 ⟨hr, decide_eq_true ⟨htenant r hr ht hf, ht, hf⟩⟩)
  refine ⟨h.store.of_eq rfl rfl rfl rfl, h.slot, h.order, h.fetched,
    ⟨h.applied.ids, h.applied.visible, h.applied.follows⟩, h.counted, fun h' hh => ?_,
    List.pairwise_cons.2 ⟨fun h' hh => ⟨fun fileId hf hf' => ?_, fun hl => ?_⟩, h.apart⟩⟩
  · rcases List.mem_cons.1 hh with rfl | hh
    · refine ⟨hfiles, hevents, fun id hid => ?_, fun hl => ⟨?_, ?_⟩, fun hl => ?_⟩
      · obtain ⟨r, hr, heq⟩ := List.mem_map.1 hid
        exact ⟨r, (List.mem_filter.1 hr).1, heq⟩
      · by_contra hne
        exact hfree (.inr ⟨hl, .inl (Option.isSome_iff_ne_none.2 hne)⟩)
      · have hl : w.registered = true := hl
        show appliedShare w.payload w.consumer w.log.visibleRows moved source = _
        rw [consumer, if_pos hl, appliedShare, Log.visibleRows, sumWhere_filter]
        refine sumWhere_congr fun r hr => ⟨?_, ?_⟩
        · rintro ⟨hv, -, ht, hf, happlied⟩
          have hr := Log.mem_visibleRows.2 ⟨hr, hv⟩
          exact ⟨(h.resolved_iff hr).2 happlied, (hevents r hr).2 ⟨ht, hf⟩⟩
        · rintro ⟨hid, hmem⟩
          have hr := h.visible_of_resolved hr hid
          obtain ⟨ht, hf⟩ := (hevents r hr).1 hmem
          exact ⟨(Log.mem_visibleRows.1 hr).2, htenant r hr ht hf, ht, hf, (h.resolved_iff hr).1 hid⟩
      · have hl : w.registered = false := hl
        show appliedShare w.payload w.consumer w.log.visibleRows moved source = _
        rw [consumer, hl]
        rfl
    · have hh' := h.handovers h' hh
      exact ⟨hh'.files, hh'.events, hh'.rows, hh'.locked, hh'.unlocked⟩
  · exact hfree (.inl ⟨h', hh, fileId, hf', hf⟩)
  · exact hfree (.inr ⟨hl.1, .inr ⟨h', hh, hl.2⟩⟩)

end

end StorageWorld

/-! ## A consumer whose log is relabelled -/

section
variable {c : EventConsumer} {opts : DispatcherOptions} {base settled : List ℕ} {l : Log} {s : ConsumerSlot}
  {o : OpenTransfer} {cursor : ℕ} {gaps burnt : List PendingGapEntry} {events : List EventRow} {r : EventRow}

/-- The log after the update of the tenants. -/
def Log.moved (l : Log) (o : OpenTransfer) : Log := { l with rows := l.rows.map o.moveRow }

theorem Log.mem_moved : r ∈ (l.moved o).rows ↔ ∃ r' ∈ l.rows, o.moveRow r' = r := List.mem_map

theorem Log.Dropped.moved (h : l.Dropped gaps) : (l.moved o).Dropped gaps where
  draws := h.draws
  rows r hr hc := by
    obtain ⟨r, hmem, rfl⟩ := Log.mem_moved.1 hr
    have hgone := h.rows r hmem (by rwa [EventTable.moveRow_id] at hc)
    rwa [Log.Gone, EventTable.moveRow_id, EventTable.moveRow_xid]

/-- What a consumer owes is a matter of ids and writers. -/
theorem Owes.moved (h : Owes l cursor gaps settled burnt) : Owes (l.moved o) cursor gaps settled burnt where
  ordered := h.ordered
  below := h.below
  cursor_lt := h.cursor_lt
  accounted r hr hle := by
    obtain ⟨r, hmem, rfl⟩ := Log.mem_moved.1 hr
    rw [EventTable.moveRow_id] at hle ⊢
    have hgone := h.accounted r hmem hle
    rwa [Log.Gone, EventTable.moveRow_id, EventTable.moveRow_xid]
  held := h.held
  bound := h.bound
  burnt_below := h.burnt_below
  burnt_gone := h.burnt_gone.moved
  settled_mem id hid := by
    obtain ⟨hle, hgap, r, hr, hrid, hx⟩ := h.settled_mem id hid
    exact ⟨hle, hgap, o.moveRow r, Log.mem_moved.2 ⟨r, hr, rfl⟩, (EventTable.moveRow_id o r).trans hrid,
      (EventTable.moveRow_xid o r).symm ▸ hx⟩
  nodup := h.nodup

theorem FetchSound.moved (h : FetchSound l cursor gaps burnt events) (hout : ∀ e ∈ events, e.id ∉ o.ids) :
    FetchSound (l.moved o) cursor gaps burnt events where
  sorted := h.sorted
  mem e he := by
    obtain ⟨hmem, hrest⟩ := h.mem e he
    exact ⟨Log.mem_moved.2 ⟨e, hmem, EventTable.moveRow_of_not_mem (hout e he)⟩, hrest⟩
  burnt := h.burnt.moved

/-- A turn keeps its invariant where none of the events it has fetched is relabelled. -/
theorem SlotInv.moved (h : SlotInv c opts base l s)
    (hout : ∀ t, s.turn = some t → ∀ id ∈ t.phase.fetchedIds, id ∉ o.ids) : SlotInv c opts base (l.moved o) s where
  owes := h.owes.moved
  batch := h.batch
  turn_state := h.turn_state
  turn_xid := h.turn_xid
  turn_phase t ht := by
    have hphase := h.turn_phase t ht
    have hids := hout t ht
    generalize t.phase = phase at hphase hids ⊢
    cases phase with
    | acquired | skipped => trivial
    | xminRead => exact hphase
    | fetched xminNow events => exact ⟨hphase.1, hphase.2.moved fun e he => hids _ (List.mem_map_of_mem he)⟩
    | delivered d burntGaps survivingGaps =>
      obtain ⟨hz, hf, hrest⟩ := hphase
      exact ⟨hz, hf.moved fun e he => hids _ (List.mem_map_of_mem he), hrest⟩
    | persisted => exact ⟨hphase.1, hphase.2.moved⟩

theorem Log.visibleRows_moved : (l.moved o).visibleRows = l.visibleRows.map o.moveRow := by
  show (l.rows.map o.moveRow).filter _ = (l.rows.filter _).map _
  rw [List.filter_map]
  refine congrArg _ (List.filter_congr fun r _ => decide_eq_decide.2 ?_)
  show (_ ∈ l.xacts.committed ∧ _ ∉ l.pruned) ↔ _
  rw [EventTable.moveRow_xid, EventTable.moveRow_id]
  rfl

theorem isOfFile_moveRow (fileId : String) : (o.moveRow r).IsOfFile fileId ↔ r.IsOfFile fileId := by
  unfold OpenTransfer.moveRow
  split <;> rfl

theorem Log.fileRows_moved {fileId : String} : (l.moved o).fileRows fileId = (l.fileRows fileId).map o.moveRow := by
  rw [Log.fileRows, Log.visibleRows_moved, List.filter_map, Log.fileRows]
  exact congrArg _ (List.filter_congr fun r _ => decide_eq_decide.2 (isOfFile_moveRow fileId))

end

namespace StorageWorld

section
variable {opts : DispatcherOptions} {w w' : StorageWorld} {h : FileHandover} {v : FileRefVerb} {r p : EventRow}
  {fileId : String} {ids : List ℕ}

/-- The events of a handover are those of its files, and their tenant is the source. -/
theorem HandoverOk.event (hok : w.HandoverOk h) (hinv : StorageInv opts w) (hr : r ∈ w.log.rows)
    (hid : r.id ∈ h.eventIds) : r ∈ w.log.visibleRows ∧ r.aggregateType = fileRefAggregateType ∧
      r.aggregateId ∈ h.fileIds ∧ r.tenantId = h.source := by
  obtain ⟨r', hr', heq⟩ := hok.rows _ hid
  obtain rfl := hinv.store.log.id_inj (Log.mem_visibleRows.1 hr').1 hr heq
  obtain ⟨ht, hf⟩ := (hok.events r' hr').1 hid
  obtain ⟨f, hfile, hsource⟩ := hok.files _ hf
  exact ⟨hr', ht, hf, (hinv.store.tenant_of_row hfile (Log.mem_fileRows.2 ⟨hr', ht, rfl⟩)).trans hsource⟩

/-- The part of the share that a file of a handover makes. -/
def handedShare (w : StorageWorld) (h : FileHandover) (fileId : String) : ℤ × ℤ :=
  sumWhere (storageDelta w.payload) w.log.rows fun r =>
    (r.id ∈ w.countedIds ∧ r.id ∈ h.eventIds) ∧ r.aggregateId = fileId

/-- The events of a file that count are a beginning of its history. -/
theorem StorageInv.fileShare_counted (hinv : StorageInv opts w) (fileId : String) : ∃ state tenantId,
    FileRefState.replay (((w.log.fileRows fileId).filter (·.id ∈ w.countedIds)).filterMap fun r => w.payload r.id) =
        some state ∧
      (∀ r ∈ w.log.fileRows fileId, r.tenantId = tenantId) ∧
      ∀ t, fileShare w.payload w.log.rows w.countedIds t fileId = if t = tenantId then state.share else 0 := by
  refine hinv.store.fileShare_eq (fun r hr hid => hinv.visible_of_counted hr hid) fun a ha b hb hlt hid => ?_
  obtain ⟨ha, hfa⟩ := Log.mem_fileRows.1 ha
  obtain ⟨hb, hfb⟩ := Log.mem_fileRows.1 hb
  exact hinv.counted_closed ha hb ⟨hfa.1, hfb.1, hfa.2.trans hfb.2.symm⟩ hlt hid

theorem StorageInv.fileShare_nonneg (hinv : StorageInv opts w) (t fileId : String) :
    0 ≤ fileShare w.payload w.log.rows w.countedIds t fileId := by
  obtain ⟨state, tenantId, -, -, hshare⟩ := hinv.fileShare_counted fileId
  rw [hshare]
  split
  · exact state.share_nonneg
  · exact le_rfl

/-- It is what the file takes of the source, or nothing. -/
theorem StorageInv.handedShare_eq (hinv : StorageInv opts w) (hok : w.HandoverOk h) (fileId : String) :
    w.handedShare h fileId = if fileId ∈ h.fileIds then
      fileShare w.payload w.log.rows w.countedIds h.source fileId else 0 := by
  split
  · next hf =>
    refine sumWhere_congr_of_ne fun r hr hne => and_congr_left fun hagg => and_congr_right fun hid => ?_
    have hv := hinv.visible_of_counted hr hid
    have ht := hinv.store.fileType_of_delta hr hne
    exact ⟨fun hmem => (hok.event hinv hr hmem).2.2.2, fun _ => (hok.events r hv).2 ⟨ht, hagg ▸ hf⟩⟩
  · next hf =>
    exact sumWhere_eq_zero fun r hr ⟨⟨_, hmem⟩, hagg⟩ => absurd (hagg ▸ (hok.event hinv hr hmem).2.2.1) hf

theorem StorageInv.handedShare_nonneg (hinv : StorageInv opts w) (hok : w.HandoverOk h) (fileId : String) :
    0 ≤ w.handedShare h fileId := by
  rw [hinv.handedShare_eq hok]
  split
  · exact hinv.fileShare_nonneg _ _
  · exact le_rfl

/-- The share of a handover is that of its files. -/
theorem StorageInv.sum_handedShare (hinv : StorageInv opts w) (hok : w.HandoverOk h) :
    (h.fileIds.dedup.map (w.handedShare h)).sum = sumWhere (storageDelta w.payload) w.log.rows
      fun r => r.id ∈ w.countedIds ∧ r.id ∈ h.eventIds :=
  sum_groups h.fileIds.nodup_dedup fun _ hr ⟨_, hmem⟩ => List.mem_dedup.2 (hok.event hinv hr hmem).2.2.1

/-- The counters after the share has moved. -/
theorem StorageInv.counted_of_handover (hinv : StorageInv opts w) (hok : w.HandoverOk h)
    (hout : h.locked = false → ∀ id ∈ h.eventIds, id ∉ w.countedIds) :
    Counted w.payload (w.log.moved h.transfer).rows w.countedIds
      (moveShare w.usage h.source h.destination h.share) := by
  have hshare : sumWhere (storageDelta w.payload) w.log.rows
      (fun r => r.id ∈ w.countedIds ∧ r.id ∈ h.eventIds) = h.share := by
    cases hl : h.locked with
    | true =>
      obtain ⟨hn, hshare⟩ := hok.locked hl
      have hnone := hinv.applied.eq_nil (by rw [hn]; rfl)
      rw [hshare, countedIds, hnone, List.map_nil, List.append_nil]
    | false =>
      rw [hok.unlocked hl]
      exact sumWhere_eq_zero fun r _ ⟨hid, hmem⟩ => absurd hid (hout hl _ hmem)
  have hsum := hinv.sum_handedShare hok
  rw [hshare] at hsum
  refine hinv.counted.move (o := h.transfer) (fun r hr hid => (hok.event hinv hr hid).2.2.2) hshare (fun hne => ?_)
    fun hz fileId => ?_
  · -- some file makes a part of the share
    have hsome : ∃ fileId ∈ h.fileIds.dedup, w.handedShare h fileId ≠ 0 := by
      by_contra hnone
      push Not at hnone
      refine hne (hsum.symm.trans (List.sum_eq_zero fun x hx => ?_))
      obtain ⟨fileId, hf, rfl⟩ := List.mem_map.1 hx
      exact hnone fileId hf
    obtain ⟨fileId, hf, hpart⟩ := hsome
    rw [hinv.handedShare_eq hok, if_pos (List.mem_dedup.1 hf)] at hpart
    exact hinv.counted.present h.source fileId hpart
  · show w.handedShare h fileId = 0
    by_cases hf : fileId ∈ h.fileIds
    · have hle : w.handedShare h fileId ≤ (h.fileIds.dedup.map (w.handedShare h)).sum := by
        refine List.single_le_sum (fun x hx => ?_) _ (List.mem_map_of_mem (List.mem_dedup.2 hf))
        obtain ⟨fileId, -, rfl⟩ := List.mem_map.1 hx
        exact hinv.handedShare_nonneg hok fileId
      rw [hsum, hz] at hle
      exact le_antisymm hle (hinv.handedShare_nonneg hok fileId)
    · rw [hinv.handedShare_eq hok, if_neg hf]

theorem moveFileRef_id (f : StoredFileRef) : (h.moveFileRef f).id = f.id := by
  unfold FileHandover.moveFileRef
  split <;> rfl

theorem moveFileRef_state (f : StoredFileRef) : (h.moveFileRef f).state = f.state ∧
    (h.moveFileRef f).isDeleted = f.isDeleted ∧ (h.moveFileRef f).size = f.size := by
  unfold FileHandover.moveFileRef
  split <;> exact ⟨rfl, rfl, rfl⟩

/-- The files and the events after a handover. -/
theorem StorageInv.store_of_handover (hinv : StorageInv opts w) (hok : w.HandoverOk h)
    (hlog : w'.log = w.log.moved h.transfer) (hpayload : w'.payload = w.payload)
    (hfileRefs : w'.fileRefs = w.fileRefs.map h.moveFileRef) (hverbs : w'.verbs = w.verbs) : w'.StoreInv := by
  have hs := hinv.store
  have hrow : ∀ fileId, w'.fileRef fileId = (w.fileRef fileId).map h.moveFileRef := fun fileId => by
    rw [fileRef, hfileRefs]
    exact KeyedRows.lookup_map moveFileRef_id
  have hrows : ∀ fileId, w'.log.fileRows fileId = (w.log.fileRows fileId).map h.transfer.moveRow := fun fileId => by
    rw [hlog, Log.fileRows_moved]
  have hmem : ∀ r, r ∈ w'.log.rows ↔ ∃ r' ∈ w.log.rows, h.transfer.moveRow r' = r := fun r => by
    rw [hlog]
    exact Log.mem_moved
  have hevents : ∀ fileId, w'.log.fileEvents w'.payload fileId = w.log.fileEvents w.payload fileId := fun fileId => by
    rw [Log.fileEvents, hrows, hpayload, List.filterMap_map, Log.fileEvents]
    simp only [Function.comp_def, EventTable.moveRow_id]
  have hxacts : w'.log.xacts = w.log.xacts := by rw [hlog, Log.moved]
  refine ⟨?_, ?_, ?_, fun id event he => ?_, fun r hr ht => ?_, fun v hv => ?_, hverbs ▸ hs.apart,
    fun r hr ht hx => ?_, fun fileId => ?_⟩
  · rw [hlog]
    exact EventTable.wf_moved hs.log h.transfer
  · rw [hlog]
    exact hs.pruned
  · rw [hfileRefs, List.map_map]
    exact (List.map_congr_left fun f _ => moveFileRef_id f).symm ▸ hs.nodup
  · obtain ⟨r, hr, hid, ht⟩ := hs.payload_row id event (hpayload ▸ he)
    refine ⟨_, (hmem _).2 ⟨r, hr, rfl⟩, (EventTable.moveRow_id _ r).trans hid, ?_⟩
    exact ((isOfFile_moveRow r.aggregateId).2 ⟨ht, rfl⟩).1
  · obtain ⟨r', hr', rfl⟩ := (hmem r).1 hr
    rw [EventTable.moveRow_id, hpayload]
    exact hs.payload_some r' hr' ((isOfFile_moveRow (h.transfer.moveRow r').aggregateId).1 ⟨ht, rfl⟩).1
  · have hvok := hs.verbs v (hverbs ▸ hv)
    obtain ⟨r, hr, hid, hx, hf, ht⟩ := hvok.row
    -- the event of a verb in progress was not seen
    have hout : r.id ∉ h.transfer.ids := fun hin => by
      have hseen := Log.mem_visibleRows.1 (hok.event hinv hr hin).1
      exact hs.log.xacts.disjoint _ hseen.2.1 (hx ▸ hvok.running)
    refine ⟨⟨r, (hmem r).2 ⟨r, hr, EventTable.moveRow_of_not_mem hout⟩, hid, hx, hf, ht⟩, hpayload ▸ hvok.event,
      hxacts ▸ hvok.running, fun r' hr' hf' => ?_, ?_⟩
    · obtain ⟨r', hr'', rfl⟩ := (hmem r').1 hr'
      rw [EventTable.moveRow_id]
      exact hvok.top r' hr'' ((isOfFile_moveRow v.fileId).1 hf')
    · have hfits := hvok.fits
      rw [hrow, hrows]
      unfold FileRefVerb.Fits at hfits ⊢
      split at hfits
      · rw [hfits.1, hfits.2]
        exact ⟨rfl, rfl⟩
      · obtain ⟨f, hf, hlive, hsize⟩ := hfits
        obtain ⟨-, hdeleted, hsame⟩ := moveFileRef_state (h := h) f
        exact ⟨h.moveFileRef f, by rw [hf, Option.map_some], hdeleted.trans hlive, hsize.trans hsame.symm⟩
      · obtain ⟨f, hf, hlive, hsize⟩ := hfits
        obtain ⟨-, hdeleted, hsame⟩ := moveFileRef_state (h := h) f
        exact ⟨h.moveFileRef f, by rw [hf, Option.map_some], hdeleted.trans hlive, hsize.trans hsame.symm⟩
      · obtain ⟨f, hf⟩ := hfits
        exact ⟨h.moveFileRef f, by rw [hf, Option.map_some]⟩
  · obtain ⟨r', hr', rfl⟩ := (hmem r).1 hr
    rw [EventTable.moveRow_xid, hxacts] at hx
    obtain ⟨v, hv, hid, hvx⟩ := hs.owned r' hr'
      ((isOfFile_moveRow (h.transfer.moveRow r').aggregateId).1 ⟨ht, rfl⟩).1 hx
    exact ⟨v, hverbs ▸ hv, hid.trans (EventTable.moveRow_id _ r').symm, hvx.trans (EventTable.moveRow_xid _ r').symm⟩
  · obtain ⟨state, tenantId, hreplay, htenant, hmatch⟩ := hs.files fileId
    unfold FileOk
    rw [hevents, hrow, hrows]
    by_cases hf : fileId ∈ h.fileIds
    · obtain ⟨f, hfile, -⟩ := hok.files fileId hf
      rw [hfile] at hmatch ⊢
      refine ⟨state, h.destination, hreplay, fun r hr => ?_, ?_⟩
      · obtain ⟨r', hr', rfl⟩ := List.mem_map.1 hr
        obtain ⟨hr', hfile'⟩ := Log.mem_fileRows.1 hr'
        have hin : r'.id ∈ h.transfer.ids := (hok.events r' hr').2 ⟨hfile'.1, hfile'.2.symm ▸ hf⟩
        rw [OpenTransfer.moveRow, if_pos hin]
        rfl
      · refine ⟨hmatch.1.trans (moveFileRef_state f).1.symm, ?_⟩
        have hkey : f.id = fileId := KeyedRows.key_of_lookup hfile
        rw [FileHandover.moveFileRef, if_pos (hkey.symm ▸ hf)]
    · refine ⟨state, tenantId, hreplay, fun r hr => ?_, ?_⟩
      · obtain ⟨r', hr', rfl⟩ := List.mem_map.1 hr
        have hvis := (Log.mem_fileRows.1 hr').1
        have hout : r'.id ∉ h.transfer.ids := fun hin =>
          hf ((Log.mem_fileRows.1 hr').2.2 ▸ ((hok.events r' hvis).1 hin).2)
        rw [EventTable.moveRow_of_not_mem hout]
        exact htenant r' hr'
      · cases hfile : w.fileRef fileId with
        | none =>
          rw [hfile] at hmatch
          exact hmatch
        | some f =>
          rw [hfile] at hmatch
          have hkey : f.id = fileId := KeyedRows.key_of_lookup hfile
          have hsame : h.moveFileRef f = f := if_neg (hkey.symm ▸ hf)
          show state = (h.moveFileRef f).state ∧ tenantId = (h.moveFileRef f).tenantId
          rw [hsame]
          exact hmatch

theorem sameFile_moveRow {o : OpenTransfer} :
    ((o.moveRow p).SameFile r ↔ p.SameFile r) ∧ (p.SameFile (o.moveRow r) ↔ p.SameFile r) := by
  unfold OpenTransfer.moveRow
  constructor <;> split <;> rfl

/-- The rest of a handover's commit: what the projection and the other handovers know of the events. -/
theorem StorageInv.commitHandOver (hinv : StorageInv opts w) (hh : h ∈ w.handovers)
    (hopen : w.StorageOk (.commitHandOver h)) :
    StorageInv opts { w with
      log := w.log.moved h.transfer
      fileRefs := w.fileRefs.map h.moveFileRef
      usage := moveShare w.usage h.source h.destination h.share
      handovers := w.handovers.erase h } := by
  have hok := hinv.handovers h hh
  have hvisible : (w.log.moved h.transfer).visibleRows = w.log.visibleRows.map h.transfer.moveRow :=
    Log.visibleRows_moved
  -- no event that the turn has fetched is taken
  have hout : ∀ t, w.slot.turn = some t → ∀ id ∈ t.phase.fetchedIds, id ∉ h.transfer.ids := by
    intro t ht id hid hin
    cases hl : h.locked with
    | true => exact absurd ht (by simp [(hok.locked hl).1])
    | false => exact (hopen hl id hin).2 (by simpa [fetchedIds, ht] using hid)
  have hkept : ∀ r ∈ w.log.visibleRows, r.id ∉ h.transfer.ids → r ∈ (w.log.moved h.transfer).visibleRows :=
    fun r hr hn => hvisible ▸ List.mem_map.2 ⟨r, hr, EventTable.moveRow_of_not_mem hn⟩
  have hfollows : ∀ r ids, w.Follows ids r → ∀ p ∈ (w.log.moved h.transfer).visibleRows, p.SameFile r →
      p.id < r.id → p.id ∈ w.slot.resolved ∨ p.id ∈ ids := by
    intro r ids hf p hp hsame hlt
    obtain ⟨p', hp', rfl⟩ := List.mem_map.1 (hvisible ▸ hp)
    rw [EventTable.moveRow_id] at hlt ⊢
    exact hf p' hp' (sameFile_moveRow.1.1 hsame) hlt
  have hfetched : ∀ id ∈ w.fetchedIds, id ∉ h.transfer.ids := fun id hid => by
    cases ht : w.slot.turn with
    | none =>
      rw [fetchedIds, ht] at hid
      cases hid
    | some t =>
      rw [fetchedIds, ht] at hid
      exact hout t ht id hid
  have hothers : ∀ h' ∈ w.handovers.erase h,
      (∀ fileId ∈ h.fileIds, fileId ∉ h'.fileIds) ∧ ¬ (h.locked = true ∧ h'.locked = true) := by
    have hperm := List.perm_cons_erase hh
    refine (List.pairwise_cons.1 ((hperm.pairwise_iff fun hr => ?_).1 hinv.apart)).1
    exact ⟨fun fileId hf hf' => hr.1 fileId hf' hf, fun hl => hr.2 hl.symm⟩
  refine ⟨hinv.store_of_handover hok rfl rfl rfl rfl, hinv.slot.moved hout, fun r hr hid => ?_,
    fun t ht xminNow events he r hr => ?_,
    ⟨hinv.applied.ids, fun r hr => hkept r (hinv.applied.visible r hr)
      (hfetched _ (hinv.fetched_of_applied (List.mem_map_of_mem hr))),
      fun before r after he => hfollows r _ (hinv.applied.follows before r after he)⟩,
    hinv.counted_of_handover hok fun hl id hid hin => ?_, fun h' hh' => ?_, hinv.apart.sublist List.erase_sublist⟩
  · obtain ⟨r', hr', rfl⟩ := List.mem_map.1 (hvisible ▸ hr)
    rw [EventTable.moveRow_id] at hid
    intro p hp hsame hlt
    rw [EventTable.moveRow_id] at hlt
    exact hfollows r' [] (hinv.order r' hr' hid) p hp (sameFile_moveRow.2.1 hsame) hlt
  · obtain ⟨hv, hf⟩ := hinv.fetched t ht xminNow events he r hr
    refine ⟨hkept r hv (hout t ht _ ?_), hfollows r _ hf⟩
    rw [he]
    exact List.mem_map_of_mem hr
  · obtain ⟨hres, hfet⟩ := hopen hl id hid
    exact (List.mem_append.1 hin).elim hres fun happ => hfet (hinv.fetched_of_applied happ)
  · obtain ⟨hdisjoint, hlocked⟩ := hothers h' hh'
    have hok' := hinv.handovers h' (List.mem_of_mem_erase hh')
    refine ⟨fun fileId hf => ?_, fun r hr => ?_, fun id hid => ?_, fun hl => ⟨(hok'.locked hl).1, ?_⟩, hok'.unlocked⟩
    · obtain ⟨f, hfile, hsource⟩ := hok'.files fileId hf
      have hkey : f.id = fileId := KeyedRows.key_of_lookup hfile
      have hsame : h.moveFileRef f = f := if_neg fun hin => hdisjoint _ hin (hkey.symm ▸ hf)
      refine ⟨f, ?_, hsource⟩
      show KeyedRows.lookup StoredFileRef.id fileId (w.fileRefs.map h.moveFileRef) = some f
      rw [KeyedRows.lookup_map moveFileRef_id]
      exact (congrArg _ hfile).trans (congrArg some hsame)
    · obtain ⟨r', hr', rfl⟩ := List.mem_map.1 (hvisible ▸ hr)
      rw [EventTable.moveRow_id, hok'.events r' hr']
      unfold OpenTransfer.moveRow
      split <;> rfl
    · obtain ⟨r, hr, hid⟩ := hok'.rows id hid
      exact ⟨_, hvisible ▸ List.mem_map_of_mem hr, (EventTable.moveRow_id _ r).trans hid⟩
    · rw [(hok'.locked hl).2, sumWhere, sumWhere]
      show _ = ((w.log.rows.map h.transfer.moveRow).map _).sum
      rw [List.map_map]
      refine congrArg _ (List.map_congr_left fun r _ => ?_)
      simp only [Function.comp_apply, EventTable.moveRow_id, storageDelta]

/-- The consumer row is inserted, or a handover ends without effect. -/
theorem StorageInv.of_handovers (hinv : StorageInv opts w) (hlog : w'.log = w.log) (hpayload : w'.payload = w.payload)
    (hfileRefs : w'.fileRefs = w.fileRefs) (hverbs : w'.verbs = w.verbs) (hslot : w'.slot = w.slot)
    (happlied : w'.applied = w.applied) (husage : w'.usage = w.usage) (hsub : w'.handovers.Sublist w.handovers) :
    StorageInv opts w' := by
  have hstore := hinv.store.of_eq hlog hpayload hfileRefs hverbs
  obtain ⟨log, payload, fileRefs, verbs, registered, slot, applied, usage, handovers⟩ := w'
  subst hlog hpayload hfileRefs hverbs hslot happlied husage
  refine ⟨hstore, hinv.slot, hinv.order, hinv.fetched,
    ⟨hinv.applied.ids, hinv.applied.visible, hinv.applied.follows⟩, hinv.counted, fun h hh => ?_,
    hinv.apart.sublist hsub⟩
  · have hok := hinv.handovers h (hsub.subset hh)
    exact ⟨hok.files, hok.events, hok.rows, hok.locked, hok.unlocked⟩

/-! ## The runs -/

theorem storageInv_initial : StorageInv opts .initial where
  store :=
    { log := Log.initial_wf
      pruned := rfl
      nodup := .nil
      payload_row := fun _ _ he => nomatch he
      payload_some := fun _ hr => nomatch hr
      verbs := fun _ hv => nomatch hv
      apart := .nil
      owned := fun _ hr => nomatch hr
      files := fun _ => ⟨.absent, "", rfl, (fun _ hr => nomatch hr), rfl⟩ }
  slot := dispatchInv_start.slot
  order _ hr := nomatch hr
  fetched := ConsumerSlot.no_turn rfl
  applied := ⟨rfl, nofun, History.along_nil⟩
  counted := ⟨fun _ => rfl, fun _ _ hne => absurd rfl hne⟩
  handovers _ hh := nomatch hh
  apart := .nil

theorem StorageInv.step (hinv : StorageInv opts w) {a : StorageAct} (hok : w.StorageOk a)
    (hs : w.step opts a = some w') : StorageInv opts w' := by
  cases a with
  | writer a =>
    simp only [StorageWorld.step, Option.ite_none_left_eq_some, Option.map_eq_some_iff] at hs
    obtain ⟨hwait, log, hlog, rfl⟩ := hs
    exact hinv.writer hwait hok hlog
  | verb xid id fileId change =>
    simp only [StorageWorld.step, Option.ite_none_right_eq_some] at hs
    obtain ⟨hfree, hs⟩ := hs
    cases he : change.event (w.fileRef fileId) with
    | none =>
      rw [he] at hs
      cases hs
    | some p =>
      rw [he] at hs
      obtain ⟨log, hlog, rfl⟩ := Option.map_eq_some_iff.1 hs
      exact hinv.verb hfree he rfl hlog
  | register =>
    simp only [StorageWorld.step, Option.ite_none_left_eq_some] at hs
    obtain ⟨-, hs⟩ := hs
    cases hs
    exact hinv.of_handovers rfl rfl rfl rfl rfl rfl rfl (.refl _)
  | turn a =>
    simp only [StorageWorld.step, Option.ite_none_right_eq_some, Option.map_eq_some_iff] at hs
    obtain ⟨⟨-, hfree⟩, r, hturn, rfl⟩ := hs
    exact hinv.onTurn hfree hok (.of_turnStep hturn)
  | handOver source destination fileIds =>
    simp only [StorageWorld.step] at hs
    split at hs
    · cases hs
      exact hinv
    · split at hs
      · cases hs
      · next hfree =>
        cases hs
        exact hinv.handOver hfree
  | commitHandOver h =>
    simp only [StorageWorld.step, Option.ite_none_right_eq_some] at hs
    obtain ⟨hh, hs⟩ := hs
    cases hs
    exact hinv.commitHandOver hh hok
  | abortHandOver h =>
    simp only [StorageWorld.step, Option.ite_none_right_eq_some] at hs
    obtain ⟨-, hs⟩ := hs
    cases hs
    exact hinv.of_handovers rfl rfl rfl rfl rfl rfl rfl List.erase_sublist

/-- When all events are consumed, a tenant's share of a file is what its row takes. -/
theorem StorageInv.fileShare_of_consumed (hinv : StorageInv opts w) (hc : w.Consumed) (t fileId : String) :
    fileShare w.payload w.log.rows w.countedIds t fileId = ((w.fileRef fileId).map fun f =>
      if f.tenantId = t ∧ f.isDeleted = false then ((f.size : ℤ), (1 : ℤ)) else 0).getD 0 := by
  obtain ⟨state, tenantId, hreplay, htenant, hshare⟩ := hinv.fileShare_counted fileId
  obtain ⟨state', tenantId', hreplay', htenant', hmatch⟩ := hinv.store.files fileId
  have hall : (w.log.fileRows fileId).filter (·.id ∈ w.countedIds) = w.log.fileRows fileId :=
    List.filter_eq_self.2 fun r hr => decide_eq_true (List.mem_append_left _ (hc r (Log.mem_fileRows.1 hr).1))
  rw [hall] at hreplay
  obtain rfl : state = state' := Option.some.inj (hreplay.symm.trans hreplay')
  rw [hshare]
  cases hf : w.fileRef fileId with
  | none =>
    rw [hf] at hmatch
    have hzero : state.share = 0 := hmatch
    rw [hzero, ite_self]
    rfl
  | some f =>
    rw [hf] at hmatch
    obtain ⟨rfl, rfl⟩ := hmatch
    rw [Option.map_some, Option.getD_some]
    cases hd : f.isDeleted with
    | true => simp [StoredFileRef.state, hd, FileRefState.share]
    | false =>
      have hlive : f.state.share = ((f.size : ℤ), 1) := by simp [StoredFileRef.state, hd, FileRefState.share]
      have hsame : tenantId = f.tenantId := by
        -- a live file has events
        cases hrows : w.log.fileRows fileId with
        | nil =>
          rw [hrows] at hreplay
          simp [FileRefState.replay, StoredFileRef.state, hd] at hreplay
        | cons r rows =>
          have hr : r ∈ w.log.fileRows fileId := hrows ▸ .head _
          exact (htenant r hr).symm.trans (htenant' r hr)
      rw [hlive, hsame]
      simp only [eq_comm, and_true]

/-- The counters count the files. -/
theorem StorageInv.usageExact (hinv : StorageInv opts w) : w.UsageExact := by
  set keys := (w.log.rows.map (·.aggregateId) ++ w.fileRefs.map (·.id)).dedup with hkeys
  have hgroups : ∀ t, (w.usage t).getD 0 =
      (keys.map fun fileId => fileShare w.payload w.log.rows w.countedIds t fileId).sum := by
    intro t
    rw [hinv.counted.total t]
    refine (sum_groups (List.nodup_dedup _) fun r hr _ => ?_).symm
    exact List.mem_dedup.2 (List.mem_append_left _ (List.mem_map_of_mem hr))
  refine ⟨fun t => ?_, fun hc t => ?_⟩
  · rw [hgroups]
    refine List.sum_nonneg fun x hx => ?_
    obtain ⟨fileId, -, rfl⟩ := List.mem_map.1 hx
    exact hinv.fileShare_nonneg t fileId
  · rw [hgroups, sum_of_subset (List.nodup_dedup _) hinv.store.nodup]
    · rw [List.map_map, storedShare, sumWhere]
      refine congrArg _ (List.map_congr_left fun f hf => ?_)
      have hrow : w.fileRef f.id = some f := KeyedRows.lookup_of_mem hinv.store.nodup hf
      rw [Function.comp_apply, hinv.fileShare_of_consumed hc, hrow]
      rfl
    · exact fun fileId hf => List.mem_dedup.2 (List.mem_append_right _ hf)
    · intro fileId _ hn
      rw [hinv.fileShare_of_consumed hc, show w.fileRef fileId = none from
        KeyedRows.lookup_eq_none.2 fun f hf he => hn (List.mem_map.2 ⟨f, hf, he⟩)]
      rfl

end

end StorageWorld

/-- As long as no live file is forgotten, no verb commits under a tenant that its row has left, no turn is rolled back
after it has applied events, and no handover without a lock overtakes a turn, no counter is negative, and when the
projection has consumed all events the counters are what the files take. -/
theorem usageExact_of_run {opts : DispatcherOptions} {w : StorageWorld}
    (hr : Run (StorageWorld.step opts) StorageWorld.StorageOk .initial w) : w.UsageExact :=
  (hr.invariant (I := StorageWorld.StorageInv opts) StorageWorld.storageInv_initial
    fun _ _ _ hinv hok hs => hinv.step hok hs).usageExact

/-- A verb in a transaction of its own. -/
def committedVerb (xid id : ℕ) (fileId : String) (change : FileRefChange) : List StorageAct :=
  [.writer .claim, .writer (.draw xid), .verb xid id fileId change, .writer (.commit xid)]

/-- A turn and its commit. -/
def storageTurn : List StorageAct := (fullTurn .allOk).map .turn

/-- A file is counted, another one is not yet when both are handed over, and the first one is deleted there. -/
def handedOverFiles : List StorageAct :=
  committedVerb 1 1 "f" (.create "tenant-a" 10) ++ [.register] ++ storageTurn ++
  committedVerb 3 2 "g" (.create "tenant-a" 7) ++
  [.handOver "tenant-a" "tenant-b" ["f", "g"],
    .commitHandOver ⟨"tenant-a", "tenant-b", ["f", "g"], [1, 2], (10, 1), true⟩] ++
  committedVerb 4 3 "f" .delete ++ storageTurn

/-- The share of the counted file moves, the other one is counted under its new tenant. -/
theorem usageExact_of_run_handedOver : ∃ w : StorageWorld, w.UsageExact ∧ w.Consumed ∧
    w.usage "tenant-a" = some (0, 0) ∧ w.usage "tenant-b" = some (7, 1) := by
  have ⟨w, hr, hw⟩ := exists_run_of_execOk (StorageWorld.step .default) (fun w a => w.StorageOk a) .initial
    handedOverFiles (fun w => decide w.Consumed && w.usage "tenant-a" == some (0, 0) &&
      w.usage "tenant-b" == some (7, 1)) (fun _ _ => of_decide_eq_true) (by decide +kernel) (by decide +kernel)
  simp only [Bool.and_eq_true, beq_iff_eq, decide_eq_true_eq] at hw
  exact ⟨w, usageExact_of_run hr, hw.1.1, hw.1.2, hw.2⟩

/-- A live file is forgotten: its row is gone, and the projection, which reads no event of that, goes on counting it. -/
theorem not_usageExact : ¬ ∀ (opts : DispatcherOptions) (w : StorageWorld),
    Run (StorageWorld.step opts) (fun _ _ => True) .initial w → w.UsageExact := fun h => by
  have ⟨w, hr, hw⟩ := exists_run_of_exec (StorageWorld.step .default) .initial
    (committedVerb 1 1 "f" (.create "tenant-a" 10) ++ [.register] ++ storageTurn ++
      committedVerb 3 2 "f" .forget ++ storageTurn)
    (fun w => decide w.Consumed && w.usage "tenant-a" == some (10, 1) && w.fileRefs.isEmpty) (by decide +kernel)
  simp only [Bool.and_eq_true, beq_iff_eq, decide_eq_true_eq, List.isEmpty_iff] at hw
  have hexact := (h _ w hr).exact hw.1.1 "tenant-a"
  rw [hw.1.2, StorageWorld.storedShare, hw.2] at hexact
  exact absurd hexact (by decide)

end Kumiko
