import Kumiko.EventStore.Log

/-!
# Conditional appends

The three ways a client writes events: `append` (also through `appendDomainEventCore`), `appendRaw` and
`appendRawBatch`. A session has a transaction of its own, or is a pool runner that gets one around the write
(`runAtomicEventWrite`). A step is a statement or, inside an insert, what happens between two points at which
another client can get in: the draw of a row's id, and its place under the two unique indexes.
-/

namespace Kumiko

/-- The event of a call. Reference: `EventToAppend` (`event-store/event-store.ts`) and
`RawEventToAppend` (`event-store/admin-api-internals.ts`). -/
structure EventToAppend where
  tenantId : String
  aggregateType : String
  aggregateId : String
  /-- The version of the predecessor, `0` for a new stream. -/
  expectedVersion : ℤ
  type : String
  /-- `metadata.idempotencyKey`. -/
  idempotencyKey : Option String
  /-- The instant of a raw event or of a seed; other events get the statement's `now()`. -/
  createdAt : Option ℕ
  deriving DecidableEq

/-- The stream of a row. -/
instance lawfulBEq_stream : LawfulBEq (String × String) := inferInstance

def EventRow.stream (r : EventRow) : String × String := (r.tenantId, r.aggregateId)

namespace EventToAppend

/-- The stream of the event. -/
def stream (ev : EventToAppend) : String × String := (ev.tenantId, ev.aggregateId)

/-- The version the event gets. -/
def newVersion (ev : EventToAppend) : ℤ := ev.expectedVersion + 1

/-- The event as it is inserted. -/
def toNewEvent (ev : EventToAppend) (now : ℕ) : NewEvent :=
  { tenantId := ev.tenantId, aggregateType := ev.aggregateType, aggregateId := ev.aggregateId,
    version := ev.newVersion, type := ev.type, createdAt := ev.createdAt.getD now,
    idempotencyKey := ev.idempotencyKey }

@[simp] theorem toRow_stream (ev : EventToAppend) (now id xid : ℕ) :
    ((ev.toNewEvent now).toRow id xid).stream = ev.stream := rfl

@[simp] theorem toRow_version (ev : EventToAppend) (now id xid : ℕ) :
    ((ev.toNewEvent now).toRow id xid).version = ev.newVersion := rfl

end EventToAppend

/-- The errors of a write. Reference: `event-store/errors.ts`; the last two are the driver's. -/
inductive AppendError
  | versionConflict (aggregateId : String) (expectedVersion : ℤ) (currentVersion : Option ℤ)
  | idempotentAppendConflict (tenantId idempotencyKey : String)
  | seedTimeOrder (aggregateType aggregateId : String) (version : ℤ)
      (seedCreatedAt predecessorCreatedAt : ℕ)
  | archivedStream (tenantId aggregateId : String)
  /-- A statement in a transaction that an earlier error has aborted (25P02). -/
  | transactionAborted
  /-- Any other error of a statement: a deadlock, a timeout, a lost connection. -/
  | database
  deriving DecidableEq

/-- The unique indexes of `kumiko_events`. -/
inductive EventsConstraint
  /-- `events_aggregate_version_uq` on tenant, aggregate and version. -/
  | aggregateVersionUq
  /-- `events_idempotency_uq` on tenant and `metadata->>'idempotencyKey'` where that is set. -/
  | idempotencyUq

/-- The error for a unique violation. The empty key is in the index and not truthy. Reference: the
`catch` of `append` and `mapEventUniqueViolation` (`event-store/admin-api.ts`). -/
def mapEventUniqueViolation (constraint : EventsConstraint) (ev : EventToAppend) : AppendError :=
  match constraint, ev.idempotencyKey with
  | .idempotencyUq, some key =>
    if key = "" then .versionConflict ev.aggregateId ev.expectedVersion none
    else .idempotentAppendConflict ev.tenantId key
  | _, _ => .versionConflict ev.aggregateId ev.expectedVersion none

/-! ## The checks of a batch -/

/-- The streams of a batch, by first appearance. -/
def batchStreams : List EventToAppend → List (String × String)
  | [] => []
  | ev :: evs => ev.stream :: (batchStreams evs).filter (· ≠ ev.stream)

/-- The events of a stream in a batch. -/
def eventsOfStream (evs : List EventToAppend) (stream : String × String) : List EventToAppend :=
  evs.filter (·.stream = stream)

/-- The first event of a list that does not follow on its predecessor in the list. -/
def firstJump : EventToAppend → List EventToAppend → Option EventToAppend
  | _, [] => none
  | prev, curr :: rest =>
    if curr.expectedVersion ≠ prev.expectedVersion + 1 then some curr else firstJump curr rest

/-- The expected versions of each stream in a batch have no gap. Reference:
`verifyContiguousWithinBatch` (`event-store/admin-api.ts`). -/
def verifyContiguousWithinBatch (evs : List EventToAppend) : Option AppendError :=
  (batchStreams evs).findSome? fun stream =>
    match (eventsOfStream evs stream).insertionSort (·.expectedVersion ≤ ·.expectedVersion) with
    | [] => none
    | first :: rest => (firstJump first rest).map fun curr =>
        .versionConflict curr.aggregateId curr.expectedVersion none

/-- A stream of a batch and the least expected version in it. -/
structure BatchGroup where
  stream : String × String
  minExpected : ℤ

/-- The least expected version of a stream in a batch. -/
def minExpected (evs : List EventToAppend) (stream : String × String) : ℤ :=
  match eventsOfStream evs stream with
  | [] => 0
  | first :: rest => rest.foldl
      (fun m ev => if ev.expectedVersion < m then ev.expectedVersion else m) first.expectedVersion

/-- The groups whose predecessors are looked up. Reference: `verifyPredecessors`
(`event-store/admin-api.ts`). -/
def batchGroups (evs : List EventToAppend) : List BatchGroup :=
  (batchStreams evs).map fun stream => ⟨stream, minExpected evs stream⟩

/-! ## Sessions -/

/-- The insert of a call. -/
inductive EventWrite
  | append (ev : EventToAppend)
  | appendRaw (ev : EventToAppend)
  | appendRawBatch (first : EventToAppend) (others : List EventToAppend)

namespace EventWrite

/-- The event that errors of the insert name. -/
def first : EventWrite → EventToAppend
  | append ev | appendRaw ev | appendRawBatch ev _ => ev

/-- The events to insert. -/
def events : EventWrite → List EventToAppend
  | append ev | appendRaw ev => [ev]
  | appendRawBatch ev others => ev :: others

/-- The insert is a multi-`VALUES` one. -/
def isBatch : EventWrite → Bool
  | appendRawBatch .. => true
  | _ => false

end EventWrite

/-- What a client asks for. -/
inductive AppendRequest
  | append (ev : EventToAppend)
  | appendRaw (ev : EventToAppend)
  | appendRawBatch (evs : List EventToAppend)
  /-- `appendDomainEventCore` with the caller's expected version, or the stream's own. -/
  | appendDomainEvent (ev : EventToAppend) (expectedVersion : Option ℤ)

/-- The next statement of a call. -/
inductive CallPhase
  /-- `isStreamArchived`. -/
  | archiveCheck (ev : EventToAppend) (expectedVersion : Option ℤ)
  /-- `getStreamVersion`. -/
  | streamVersion (ev : EventToAppend)
  /-- `eventPredecessorExists` for each group that is left. -/
  | predecessors (first : EventToAppend) (others : List EventToAppend) (groups : List BatchGroup)
  /-- `findExistingEventVersion`. -/
  | duplicates (first : EventToAppend) (others : List EventToAppend)
  /-- `claimXactId`. -/
  | claim (w : EventWrite)
  /-- `assertSeedTimeNotBeforePredecessor`. -/
  | seedCheck (w : EventWrite)
  /-- The `WHERE EXISTS` of the insert. -/
  | gate (w : EventWrite)
  /-- The insert draws the id of its next row. -/
  | draw (w : EventWrite) (rest : List EventToAppend)
  /-- The insert places a row. -/
  | place (w : EventWrite) (id : ℕ) (ev : EventToAppend) (rest : List EventToAppend)
  /-- `selectStreamMaxVersion` after an insert without a row. -/
  | conflicted (ev : EventToAppend)
  /-- The `COMMIT` of a pool runner's transaction. -/
  | commit

/-- A call in progress. -/
structure OpenCall where
  number : ℕ
  phase : CallPhase

/-- A client's connection. -/
structure Session where
  /-- The client has begun a transaction; otherwise its runner is the pool. -/
  inTx : Bool
  /-- An error has aborted the transaction. -/
  failed : Bool
  xid : Option ℕ
  call : Option OpenCall

/-- A row that a call has inserted. -/
structure Written where
  call : ℕ
  event : EventToAppend
  id : ℕ
  xid : ℕ
  deriving DecidableEq

/-- A call that has failed. -/
structure FailedCall where
  call : ℕ
  error : AppendError
  deriving DecidableEq

/-- The table, the archived streams, the clients, and what their calls have written and which of
them have failed. -/
structure Store where
  log : Log
  archived : List (String × String)
  sessions : ℕ → Session
  nextCall : ℕ
  writes : List Written
  failures : List FailedCall

/-- A step of the store. -/
inductive StoreAct
  | begin (k : ℕ)
  | commit (k : ℕ)
  | rollback (k : ℕ)
  | call (k : ℕ) (request : AppendRequest)
  /-- The client's call goes on with its next statement. -/
  | run (k now : ℕ)
  /-- The client's statement fails with a database error. -/
  | error (k : ℕ)
  | archiveStream (stream : String × String)
  | restoreStream (stream : String × String)

/-- A client that has nothing open. -/
def Session.idle : Session := { inTx := false, failed := false, xid := none, call := none }

namespace Store

/-- An empty table and idle clients. -/
def initial : Store :=
  { log := .initial, archived := [], sessions := fun _ => .idle, nextCall := 0, writes := [],
    failures := [] }

/-- The client's session changes. -/
def setSession (s : Store) (k : ℕ) (σ : Session) : Store :=
  { s with sessions := Function.update s.sessions k σ }

/-- The rows a statement of the client sees: the committed ones and its own transaction's. -/
def view (s : Store) (k : ℕ) : List EventRow :=
  s.log.rows.filter fun r =>
    (r.xid ∈ s.log.xacts.committed ∨ (s.sessions k).xid = some r.xid) ∧ r.id ∉ s.log.pruned

/-- The row holds the event's version. -/
def SameVersion (r : EventRow) (ev : EventToAppend) : Prop :=
  r.stream = ev.stream ∧ r.version = ev.newVersion

instance (r : EventRow) (ev : EventToAppend) : Decidable (SameVersion r ev) :=
  inferInstanceAs (Decidable (_ ∧ _))

/-- The row holds the event's idempotency key. -/
def SameKey (r : EventRow) (ev : EventToAppend) : Prop :=
  r.tenantId = ev.tenantId ∧ ev.idempotencyKey.isSome ∧ r.idempotencyKey = ev.idempotencyKey

instance (r : EventRow) (ev : EventToAppend) : Decidable (SameKey r ev) :=
  inferInstanceAs (Decidable (_ ∧ _ ∧ _))

/-- The row is the predecessor of the event. -/
def Precedes (r : EventRow) (ev : EventToAppend) : Prop :=
  r.stream = ev.stream ∧ r.version = ev.expectedVersion

instance (r : EventRow) (ev : EventToAppend) : Decidable (Precedes r ev) :=
  inferInstanceAs (Decidable (_ ∧ _))

/-- What the unique indexes say to a row. -/
inductive UniqueCheck
  | free
  | violates (constraint : EventsConstraint)
  /-- Another transaction that still runs holds the key. -/
  | waits

/-- A row is checked against the version index first and then against the idempotency index. -/
def uniqueCheck (s : Store) (k : ℕ) (ev : EventToAppend) : UniqueCheck :=
  if ∃ r ∈ s.view k, SameVersion r ev then .violates .aggregateVersionUq
  else if ∃ r ∈ s.log.rows, r.xid ∈ s.log.xacts.running ∧ SameVersion r ev then .waits
  else if ∃ r ∈ s.view k, SameKey r ev then .violates .idempotencyUq
  else if ∃ r ∈ s.log.rows, r.xid ∈ s.log.xacts.running ∧ SameKey r ev then .waits
  else .free

/-- The greatest version of the stream in the rows, `0` when it has none. Reference:
`selectStreamMaxVersion` (`db/queries/event-store.ts`). -/
def streamMaxVersion (rows : List EventRow) (stream : String × String) : ℤ :=
  ((rows.filter (·.stream = stream)).map (·.version)).max?.getD 0

/-- The call goes on with another statement. -/
def goto (s : Store) (k n : ℕ) (phase : CallPhase) : Store :=
  s.setSession k { s.sessions k with call := some ⟨n, phase⟩ }

@[simp] theorem goto_xid (s : Store) (k n : ℕ) (phase : CallPhase) :
    ((s.goto k n phase).sessions k).xid = (s.sessions k).xid := by
  simp [goto, setSession]

/-- The log after the transaction, if there is one, is rolled back. -/
def abortLog (s : Store) : Option ℕ → Option Log
  | none => some s.log
  | some x => s.log.step (.abort x)

/-- A statement of the call fails. PostgreSQL aborts the transaction at once; a caller's transaction
then waits for its `ROLLBACK`. -/
def raise (s : Store) (k n : ℕ) (e : AppendError) : Option Store :=
  let σ := s.sessions k
  (s.abortLog σ.xid).map fun log =>
    { s.setSession k { inTx := σ.inTx, failed := σ.inTx, xid := none, call := none } with
      log, failures := ⟨n, e⟩ :: s.failures }

/-- The call throws without a failed statement. A caller's transaction goes on; the transaction of a
pool runner is rolled back. -/
def fail (s : Store) (k n : ℕ) (e : AppendError) : Option Store :=
  if (s.sessions k).inTx then
    some { s.setSession k { s.sessions k with call := none } with
      failures := ⟨n, e⟩ :: s.failures }
  else s.raise k n e

/-- The insert is complete. -/
def complete (s : Store) (k n : ℕ) : Store :=
  if (s.sessions k).inTx then s.setSession k { s.sessions k with call := none }
  else s.goto k n .commit

/-- The client's transaction commits. -/
def commitTx (s : Store) (k : ℕ) : Option Store :=
  match (s.sessions k).xid with
  | none => some (s.setSession k .idle)
  | some x => (s.log.step (.commit x)).map fun log => { s.setSession k .idle with log }

/-- A back-dated seed write before its predecessor in time. Reference:
`assertSeedTimeNotBeforePredecessor` (`event-store/event-store.ts`). -/
def seedTimeError (s : Store) (k : ℕ) : EventWrite → Option AppendError
  | .append ev =>
    match ev.createdAt, (s.view k).find? fun r => Precedes r ev with
    | some seedCreatedAt, some p =>
      if 0 < ev.expectedVersion ∧ seedCreatedAt < p.createdAt then
        some (.seedTimeOrder ev.aggregateType ev.aggregateId ev.newVersion seedCreatedAt p.createdAt)
      else none
    | _, _ => none
  | _ => none

/-- The predecessor that the insert asks for is there. Reference: the `WHERE EXISTS` of
`insertSubsequentEventRow` and `insertRawSubsequentEvent`. -/
def PassesGate (s : Store) (k : ℕ) (w : EventWrite) : Prop :=
  w.isBatch ∨ w.first.expectedVersion = 0 ∨ ∃ r ∈ s.view k, Precedes r w.first

instance (s : Store) (k : ℕ) (w : EventWrite) : Decidable (s.PassesGate k w) :=
  inferInstanceAs (Decidable (_ ∨ _ ∨ _))

/-- The insert of a row ended without it. `ON CONFLICT DO NOTHING` leaves `append`'s transaction
intact. -/
def noRow (s : Store) (k n : ℕ) : EventWrite → Option Store
  | .append ev => some (s.goto k n (.conflicted ev))
  | w => s.fail k n (.versionConflict w.first.aggregateId w.first.expectedVersion none)

/-- The call of a session executes its next statement. -/
def runCall (s : Store) (k now n : ℕ) : CallPhase → Option Store
  | .archiveCheck ev expectedVersion =>
    if ev.stream ∈ s.archived then s.fail k n (.archivedStream ev.tenantId ev.aggregateId)
    else match expectedVersion with
      | none => some (s.goto k n (.streamVersion ev))
      | some v => some (s.goto k n (.claim (.append { ev with expectedVersion := v })))
  | .streamVersion ev =>
    let v := streamMaxVersion (s.view k) ev.stream
    some (s.goto k n (.claim (.append { ev with expectedVersion := v })))
  | .predecessors first others [] => some (s.goto k n (.duplicates first others))
  | .predecessors first others (g :: groups) =>
    if g.minExpected = 0 ∨ ∃ r ∈ s.view k, r.stream = g.stream ∧ r.version = g.minExpected then
      some (s.goto k n (.predecessors first others groups))
    else s.fail k n (.versionConflict g.stream.2 g.minExpected none)
  | .duplicates first others =>
    -- `LIMIT 1` may name any of the rows that are already there
    match (s.view k).find? fun r => ∃ ev ∈ first :: others, SameVersion r ev with
    | some r => s.fail k n (.versionConflict r.aggregateId (r.version - 1) none)
    | none => some (s.goto k n (.claim (.appendRawBatch first others)))
  | .claim w =>
    match (s.sessions k).xid with
    | some _ => some (s.goto k n (.seedCheck w))
    | none => (s.log.step .claim).map fun log =>
        { s.setSession k { s.sessions k with
            xid := some s.log.xacts.nextXid, call := some ⟨n, .seedCheck w⟩ } with log }
  | .seedCheck w =>
    match s.seedTimeError k w with
    | some e => s.fail k n e
    | none => some (s.goto k n (.gate w))
  | .gate w =>
    if s.PassesGate k w then some (s.goto k n (.draw w w.events)) else s.noRow k n w
  | .draw _ [] => some (s.complete k n)
  | .draw w (ev :: rest) =>
    (s.sessions k).xid.bind fun x => (s.log.step (.draw x)).map fun log =>
      { s.goto k n (.place w s.log.nextId ev rest) with log }
  | .place w id ev rest =>
    match s.uniqueCheck k ev, w with
    | .waits, _ => none
    | .violates .aggregateVersionUq, .append _ => s.noRow k n w
    | .violates constraint, _ => s.raise k n (mapEventUniqueViolation constraint w.first)
    | .free, _ => (s.sessions k).xid.bind fun x =>
        (s.log.step (.insert x id (ev.toNewEvent now))).map fun log =>
          { s.goto k n (.draw w rest) with log, writes := s.writes ++ [⟨n, ev, id, x⟩] }
  | .conflicted ev =>
    s.fail k n (.versionConflict ev.aggregateId ev.expectedVersion
      (some (streamMaxVersion (s.view k) ev.stream)))
  | .commit => s.commitTx k

/-- A call begins. The checks that need no statement come first. -/
def startCall (s : Store) (k : ℕ) (request : AppendRequest) : Store :=
  let start (phase : CallPhase) : Store :=
    { s.goto k s.nextCall phase with nextCall := s.nextCall + 1 }
  match request with
  | .append ev => start (.claim (.append ev))
  | .appendRaw ev => start (.claim (.appendRaw ev))
  | .appendRawBatch [] => s
  | .appendRawBatch (first :: others) =>
    match verifyContiguousWithinBatch (first :: others) with
    | some e => { s with nextCall := s.nextCall + 1, failures := ⟨s.nextCall, e⟩ :: s.failures }
    | none => start (.predecessors first others (batchGroups (first :: others)))
  | .appendDomainEvent ev expectedVersion => start (.archiveCheck ev expectedVersion)

/-- One step of the store. -/
def step (s : Store) : StoreAct → Option Store
  | .begin k =>
    let σ := s.sessions k
    if σ.inTx ∨ σ.call.isSome then none else some (s.setSession k { σ with inTx := true })
  | .commit k =>
    let σ := s.sessions k
    if σ.inTx ∧ σ.call = none then s.commitTx k else none
  | .rollback k =>
    let σ := s.sessions k
    if σ.inTx ∧ σ.call = none then
      (s.abortLog σ.xid).map fun log => { s.setSession k .idle with log }
    else none
  | .call k request => if (s.sessions k).call = none then some (s.startCall k request) else none
  | .run k now =>
    (s.sessions k).call.bind fun c =>
      if (s.sessions k).failed then s.raise k c.number .transactionAborted
      else s.runCall k now c.number c.phase
  | .error k => (s.sessions k).call.bind fun c => s.raise k c.number .database
  | .archiveStream stream => some { s with archived := stream :: s.archived }
  | .restoreStream stream => some { s with archived := s.archived.filter (· ≠ stream) }

end Store

end Kumiko
