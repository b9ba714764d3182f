import Kumiko.Library.Run
import Kumiko.Library.History
import Kumiko.Crypto.OwnerTransitionRekey

/-!
# The executor's verbs, statement by statement

`db/event-store-executor-write.ts`, `event-store-executor-context.ts` and `apply-entity-event.ts` for one
aggregate. A verb reads the row, evaluates its guards on it, reads the stream's version, appends one above it
and writes the row, each a statement of its own, in a savepoint or in a transaction of its own.

Rows are taken decrypted; what the encryption adds is in `Db.FieldStorage`. Blind indexes are recomputed from
the columns written and left out.
-/

namespace Kumiko

variable {J : Type*}

/-! ## Calls and events -/

/-- Reference: `SYSTEM_TENANT_ID`. -/
def systemTenantId : String := "00000000-0000-4000-8000-000000000000"

/-- The verbs, and `ctx.events.append` for an event of the application on the same aggregate. -/
inductive ExecutorVerb where
  | create | update | delete | forget | restore | domainEvent
  deriving DecidableEq

/-- The mode and the tenant of a `TenantDb`. -/
structure TenantHandle where
  system : Bool
  tenantId : String

/-- The tenant column of a row. -/
def rowTenant (row : EntityRow J) : Option String := nonEmptyString (row.value "tenantId")

/-- The tenant predicate that `fetchOne` adds. -/
def TenantHandle.selects (db : TenantHandle) (row : EntityRow J) : Bool :=
  db.system || rowTenant row = some db.tenantId || rowTenant row = some systemTenantId

/-- A call of a verb. The rules of the entity as they read for its user: `readable` of the row, `ownership` of
the row before and after, and `fieldState`; `preSave` fails where the hook does or its output breaks the
schema. -/
structure VerbCall (J : Type*) where
  verb : ExecutorVerb
  payload : EntityRow J
  userId : String
  userTenantId : String
  systemUser : Bool
  db : TenantHandle
  streamTenantId : Option String
  preSave : EntityRow J → EntityRow J → Option (EntityRow J)
  readable : EntityRow J → Bool
  ownership : EntityRow J → EntityRow J → Bool
  fieldState : EntityRow J → EntityRow J → Bool
  lockBypassed : Bool
  version : Option ℕ
  skipOptimisticLock : Bool
  skipUnchanged : Bool
  includeDeleted : Bool
  expect : Option (EntityRow J → Bool)

namespace VerbCall

variable (c : VerbCall J)

/-- No override, or one the handle may use for this row. Reference: `streamTenantOverrideFailure`. -/
def mayAddress (row : EntityRow J) : Bool :=
  match c.streamTenantId with
  | none => true
  | some tenantId => (c.db.system || c.db.tenantId = tenantId) && rowTenant row = some tenantId

/-- Reference: `isRowReadable`, which framework system writes skip. -/
def mayRead (row : Option (EntityRow J)) : Bool :=
  c.systemUser || row.any fun r => c.db.selects r && c.readable r

/-- The changes after the hook. Reference: `runPreSave`. -/
def hookedChanges (previous : EntityRow J) : Option (EntityRow J) :=
  match c.verb with
  | .create | .update => c.preSave c.payload previous
  | .delete | .forget | .restore | .domainEvent => some fun _ => none

end VerbCall

/-- What an event carries. -/
inductive EntityPayload (J : Type*) where
  | created (data : EntityRow J)
  | updated (changes previous : EntityRow J)
  | deleted (previous : EntityRow J)
  | restored (previous : EntityRow J)
  | forgotten (previous : EntityRow J)
  | domainEvent

/-- `payload.previous` -/
def EntityPayload.previous : EntityPayload J → Option (EntityRow J)
  | .updated _ previous | .deleted previous | .restored previous | .forgotten previous => some previous
  | .created _ | .domainEvent => none

/-- An event of the aggregate, with a record of the call that appended it: the version of the stream at the call,
and the changes after its hook. -/
structure EntityEvent (J : Type*) where
  tenantId : String
  version : ℕ
  createdAt : ℕ
  createdBy : String
  payload : EntityPayload J
  call : VerbCall J
  seen : ℕ
  patch : EntityRow J

/-- The verbs of an entity. `time` and `flag` are the column values of a time and a boolean. -/
structure EntityVerbs (J : Type*) extends EntityExecutor J where
  aggregateId : String
  softDelete : Bool
  systemStream : Bool
  isRecordLocked : EntityRow J → Bool
  time : ℕ → FieldValue J
  flag : Bool → FieldValue J
  isTrue : FieldValue J → Bool

/-- A row given by its columns. -/
def EntityRow.ofColumns (columns : List (String × FieldValue J)) : EntityRow J := fun name => columns.lookup name

namespace EntityVerbs

variable (ev : EntityVerbs J)

/-- Reference: `streamTenantFor`. -/
def streamTenantFor (c : VerbCall J) : String :=
  if ev.systemStream then systemTenantId else c.streamTenantId.getD c.userTenantId

/-! ### The row -/

/-- The columns every write of a row sets. -/
def modified (e : EntityEvent J) : EntityRow J :=
  .ofColumns [("version", .number (toString e.version)), ("modifiedAt", ev.time e.createdAt),
    ("modifiedById", .text (.of e.createdBy))]

/-- The row a `created` event inserts. -/
def inserted (e : EntityEvent J) (data : EntityRow J) (tenantId : String) : EntityRow J :=
  (EntityRow.overlay (.ofColumns [("isDeleted", ev.flag false)]) (ev.columns data)).overlay
    (.ofColumns [("tenantId", .text (.of tenantId)), ("id", .text (.of ev.aggregateId)),
      ("version", .number (toString e.version)), ("insertedAt", ev.time e.createdAt),
      ("insertedById", .text (.of e.createdBy))])

/-- The columns of a soft delete. -/
def trashed (e : EntityEvent J) : EntityRow J :=
  .ofColumns [("isDeleted", ev.flag true), ("deletedAt", ev.time e.createdAt),
    ("deletedById", .text (.of e.createdBy))]

/-- The columns of a restore. -/
def untrashed : EntityRow J :=
  .ofColumns [("isDeleted", ev.flag false), ("deletedAt", .null), ("deletedById", .null)]

/-- What an event makes of the row: `none` where it throws, and else the row there is then, if any.
Reference: `applyEntityEvent`. -/
def applyEntityEvent (row : Option (EntityRow J)) (e : EntityEvent J) : Option (Option (EntityRow J)) :=
  match e.payload with
  | .created data =>
    match row with
    | some _ => none
    | none => (createdTenant data e.tenantId).map fun tenantId => some (ev.inserted e data tenantId)
  | .updated changes _ => some (row.map fun r => r.overlay ((ev.columns changes).overlay (ev.modified e)))
  | .deleted _ =>
    some (if ev.softDelete then row.map fun r => r.overlay ((ev.trashed e).overlay (ev.modified e)) else none)
  | .restored _ =>
    some (if ev.softDelete then row.map fun r => r.overlay (ev.untrashed.overlay (ev.modified e)) else row)
  | .forgotten _ => some none
  | .domainEvent => some row

/-- A replay leaves the row as it is where the live write throws. -/
def applied (row : Option (EntityRow J)) (e : EntityEvent J) : Option (EntityRow J) :=
  (ev.applyEntityEvent row e).getD row

/-- The row as the events of a stream leave it. -/
def rowAfter (es : List (EntityEvent J)) : Option (EntityRow J) := es.foldl ev.applied none

/-! ### Guards -/

/-- The filter of the row read. Reference: `idFilter`, `loadById` and `loadSoftDeletedRow`. -/
def finds (c : VerbCall J) (row : EntityRow J) : Bool :=
  c.db.selects row &&
    match c.verb with
    | .update => !ev.softDelete || c.includeDeleted || !ev.isTrue (row.value "isDeleted")
    | .delete => !ev.softDelete || !ev.isTrue (row.value "isDeleted")
    | .restore => ev.softDelete && ev.isTrue (row.value "isDeleted")
    | .create | .forget | .domainEvent => true

/-- The guards that look at the row read and at the changes. -/
def allows (c : VerbCall J) (previous changes : EntityRow J) : Bool :=
  match c.verb with
  | .create => c.ownership previous changes && c.fieldState previous changes
  | .update => c.ownership previous (previous.overlay changes) &&
      (c.lockBypassed || !ev.isRecordLocked previous) && c.fieldState previous (previous.overlay changes)
  | .delete => c.ownership previous previous && (c.lockBypassed || !ev.isRecordLocked previous)
  | .forget => c.systemUser || c.ownership previous previous
  | .restore => c.ownership previous previous
  | .domainEvent => true

/-- The changes of an update and what it adds to them. -/
def persistedChanges (c : VerbCall J) (previous changes : EntityRow J) : EntityRow J :=
  ev.changesToPersist previous (previous.overlay changes) (ev.submittedChanges c.skipUnchanged previous changes)

/-- The payload of the event a call appends. -/
def payloadOf (c : VerbCall J) (previous changes : EntityRow J) : EntityPayload J :=
  match c.verb with
  | .create => .created changes
  | .update => .updated (ev.persistedChanges c previous changes) previous
  | .delete => .deleted previous
  | .forget => .forgotten previous
  | .restore => .restored previous
  | .domainEvent => .domainEvent

/-- The event a call appends. -/
def eventOf (c : VerbCall J) (seen : ℕ) (previous changes : EntityRow J) (expectedVersion now : ℕ) : EntityEvent J where
  tenantId := ev.streamTenantFor c
  version := expectedVersion + 1
  createdAt := now
  createdBy := c.userId
  payload := ev.payloadOf c previous changes
  call := c
  seen := seen
  patch := changes

end EntityVerbs

/-! ## Clients -/

/-- What a transaction has written of the aggregate: its events, and its version of the row. -/
structure VerbTx (J : Type*) where
  events : List (EntityEvent J)
  row : Option (Option (EntityRow J))

/-- The next statement of a verb. `checked` is the row that the read rule was evaluated on. -/
inductive VerbPhase (J : Type*) where
  | readable (loaded : Option (EntityRow J))
  | load (checked : Option (EntityRow J))
  | guard (checked : Option (EntityRow J)) (previous : EntityRow J)
  | archived (checked : Option (EntityRow J)) (previous changes : EntityRow J)
  | version (checked : Option (EntityRow J)) (previous changes : EntityRow J)
  | append (previous changes : EntityRow J) (expectedVersion : ℕ)
  | project (event : EntityEvent J)
  | projections

/-- A verb in progress: what its transaction had written before it, and whether the transaction is its own.
`seen` records the stream's version at the call. -/
structure OpenVerb (J : Type*) where
  call : VerbCall J
  own : Bool
  saved : VerbTx J
  seen : ℕ
  phase : VerbPhase J

/-- A client, with its verbs in progress, the innermost first. -/
structure VerbClient (J : Type*) where
  inTx : Bool
  written : VerbTx J
  calls : List (OpenVerb J)

/-- The aggregate: what is committed, the tenants whose stream of it is archived, and the clients. -/
structure AggregateTable (J : Type*) (n : ℕ) where
  events : List (EntityEvent J)
  row : Option (EntityRow J)
  archived : List String
  clients : Fin n → VerbClient J

/-- A step of a client, or of an administrator. -/
inductive AggregateAct (J : Type*) (n : ℕ) where
  | begin (k : Fin n)
  | commit (k : Fin n)
  | rollback (k : Fin n)
  | call (k : Fin n) (c : VerbCall J)
  /-- The next statement of the innermost verb. -/
  | run (k : Fin n) (now : ℕ)
  /-- It throws. -/
  | error (k : Fin n)
  | archive (tenantId : String)
  | unarchive (tenantId : String)

/-- Nothing written. -/
def VerbTx.empty : VerbTx J := ⟨[], none⟩

/-- A client outside any transaction. -/
def VerbClient.idle : VerbClient J := ⟨false, .empty, []⟩

/-- The version of a tenant's stream. Reference: `getStreamVersion`. -/
def maxVersion (es : List (EntityEvent J)) (tenantId : String) : ℕ :=
  ((es.filter (·.tenantId = tenantId)).map (·.version)).foldl max 0

namespace AggregateTable

variable {n : ℕ}

def initial : AggregateTable J n := ⟨[], none, [], fun _ => .idle⟩

def setClient (s : AggregateTable J n) (k : Fin n) (cl : VerbClient J) : AggregateTable J n :=
  { s with clients := Function.update s.clients k cl }

/-- The events a statement of the client sees. -/
def visibleEvents (s : AggregateTable J n) (k : Fin n) : List (EntityEvent J) :=
  s.events ++ (s.clients k).written.events

/-- The row a statement of the client sees. -/
def visibleRow (s : AggregateTable J n) (k : Fin n) : Option (EntityRow J) := (s.clients k).written.row.getD s.row

/-- A transaction commits, and its client goes on with the verbs given. -/
def publish (s : AggregateTable J n) (k : Fin n) (calls : List (OpenVerb J)) : AggregateTable J n :=
  { s with
    events := s.visibleEvents k
    row := s.visibleRow k
    clients := Function.update s.clients k ⟨false, .empty, calls⟩ }

/-- The innermost verb goes on. -/
def goto (s : AggregateTable J n) (k : Fin n) (o : OpenVerb J) (rest : List (OpenVerb J)) (phase : VerbPhase J) :
    AggregateTable J n :=
  s.setClient k { s.clients k with calls := { o with phase } :: rest }

/-- The innermost verb fails: its savepoint is rolled back, or its transaction.
Reference: `runVerbAtomically`. -/
def fail (s : AggregateTable J n) (k : Fin n) (o : OpenVerb J) (rest : List (OpenVerb J)) : AggregateTable J n :=
  s.setClient k ⟨!o.own, o.saved, rest⟩

/-- The innermost verb ends well. -/
def finish (s : AggregateTable J n) (k : Fin n) (o : OpenVerb J) (rest : List (OpenVerb J)) : AggregateTable J n :=
  if o.own then s.publish k rest else s.setClient k { s.clients k with calls := rest }

/-- Another transaction holds the version. -/
def VersionHeld (s : AggregateTable J n) (k : Fin n) (tenantId : String) (version : ℕ) : Prop :=
  ∃ k', k' ≠ k ∧ ∃ e ∈ (s.clients k').written.events, e.tenantId = tenantId ∧ e.version = version

instance (s : AggregateTable J n) (k : Fin n) (tenantId : String) (version : ℕ) :
    Decidable (s.VersionHeld k tenantId version) :=
  inferInstanceAs (Decidable (∃ k', k' ≠ k ∧ ∃ e ∈ _, _))

/-- Another transaction has written the row. -/
def RowHeld (s : AggregateTable J n) (k : Fin n) : Prop :=
  ∃ k', k' ≠ k ∧ (s.clients k').written.row.isSome

instance (s : AggregateTable J n) (k : Fin n) : Decidable (s.RowHeld k) :=
  inferInstanceAs (Decidable (∃ k', k' ≠ k ∧ _))

/-- The append of an event: it waits, conflicts or is inserted after its predecessor. -/
def appendEvent (s : AggregateTable J n) (k : Fin n) (o : OpenVerb J) (rest : List (OpenVerb J))
    (e : EntityEvent J) : Option (AggregateTable J n) :=
  if ∃ e' ∈ s.visibleEvents k, e'.tenantId = e.tenantId ∧ e'.version = e.version then some (s.fail k o rest)
  else if e.version ≠ 1 ∧ ¬ ∃ e' ∈ s.visibleEvents k, e'.tenantId = e.tenantId ∧ e'.version + 1 = e.version then
    some (s.fail k o rest)
  else if s.VersionHeld k e.tenantId e.version then none
  else
    let cl := s.clients k
    let phase := match e.payload with
      | .domainEvent => .projections
      | _ => .project e
    some (s.setClient k { cl with
      written := { cl.written with events := cl.written.events ++ [e] }
      calls := { o with phase } :: rest })

end AggregateTable

/-- A verb may be called where the innermost one runs its hook or its projections. -/
def VerbPhase.mayNest (c : VerbCall J) : VerbPhase J → Bool
  | .guard _ _ => c.verb = .create || c.verb = .update
  | .projections => true
  | _ => false

/-- Where a call starts: `forget` loads first, `create` reads nothing and a domain event no row. -/
def VerbCall.start (c : VerbCall J) : VerbPhase J :=
  match c.verb with
  | .create => .guard none fun _ => none
  | .forget => .load none
  | .domainEvent => .archived none (fun _ => none) fun _ => none
  | .update | .delete | .restore => .readable none

namespace EntityVerbs

variable {n : ℕ} (ev : EntityVerbs J)

/-- The version the event is to follow, unless the checks at this statement refuse the call: the precondition,
read with the version, and the optimistic lock.
Reference: `currentStreamVersion`, `expectedStreamVersion` and `optimisticLockFailure`. -/
def currentVersion (s : AggregateTable J n) (k : Fin n) (c : VerbCall J) : Option ℕ :=
  let current := maxVersion (s.visibleEvents k) (ev.streamTenantFor c)
  if (c.verb = .update ∨ c.verb = .delete) ∧
      c.expect.any (fun p => !(s.visibleRow k).any fun row => c.db.selects row && p row) then none
  else if c.verb = .update ∧ c.skipOptimisticLock = false ∧ c.version ≠ some current then none
  else some current

/-- The write of the row. Creates, updates and restores fail where there is no row.
Reference: `applyProjection`. -/
def projectEvent (s : AggregateTable J n) (k : Fin n) (o : OpenVerb J) (rest : List (OpenVerb J))
    (e : EntityEvent J) : Option (AggregateTable J n) :=
  if s.RowHeld k then none
  else
    match ev.applyEntityEvent (s.visibleRow k) e with
    | none => some (s.fail k o rest)
    | some row =>
      if row.isNone ∧ (o.call.verb = .create ∨ o.call.verb = .update ∨ o.call.verb = .restore) then
        some (s.fail k o rest)
      else
        let cl := s.clients k
        some (s.setClient k { cl with
          written := { cl.written with row := some row }
          calls := { o with phase := .projections } :: rest })

/-- The next statement of a verb. -/
def runVerb (s : AggregateTable J n) (k : Fin n) (now : ℕ) (o : OpenVerb J) (rest : List (OpenVerb J)) :
    Option (AggregateTable J n) :=
  match o.phase with
  | .readable loaded =>
    let row := s.visibleRow k
    if o.call.mayRead row then
      some (s.goto k o rest (match loaded with
        | none => .load row
        | some previous => .guard row previous))
    else some (s.fail k o rest)
  | .load checked =>
    match s.visibleRow k with
    | none => some (s.fail k o rest)
    | some previous =>
      if ev.finds o.call previous && o.call.mayAddress previous then
        some (s.goto k o rest (if o.call.verb = .forget then .readable (some previous)
          else .guard checked previous))
      else some (s.fail k o rest)
  | .guard checked previous =>
    match o.call.hookedChanges previous with
    | none => some (s.fail k o rest)
    | some changes =>
      if ev.allows o.call previous changes then
        some (s.goto k o rest (if o.call.verb = .create then .append previous changes 0
          else .archived checked previous changes))
      else some (s.fail k o rest)
  | .archived checked previous changes =>
    if ev.streamTenantFor o.call ∈ s.archived then some (s.fail k o rest)
    else some (s.goto k o rest (.version checked previous changes))
  | .version _ previous changes =>
    match ev.currentVersion s k o.call with
    | none => some (s.fail k o rest)
    | some current => some (s.goto k o rest (.append previous changes current))
  | .append previous changes expectedVersion =>
    s.appendEvent k o rest (ev.eventOf o.call o.seen previous changes expectedVersion now)
  | .project e => ev.projectEvent s k o rest e
  | .projections => some (s.finish k o rest)

/-- A call opens a savepoint in the transaction of its client, or a transaction. -/
def openVerb (s : AggregateTable J n) (k : Fin n) (c : VerbCall J) : OpenVerb J where
  call := c
  own := !(s.clients k).inTx
  saved := (s.clients k).written
  seen := maxVersion (s.visibleEvents k) (ev.streamTenantFor c)
  phase := c.start

/-- One step. -/
def step (s : AggregateTable J n) : AggregateAct J n → Option (AggregateTable J n)
  | .begin k => if (s.clients k).inTx then none else some (s.setClient k ⟨true, .empty, []⟩)
  | .commit k =>
    if (s.clients k).inTx ∧ (s.clients k).calls.isEmpty then some (s.publish k []) else none
  | .rollback k =>
    if (s.clients k).inTx ∧ (s.clients k).calls.isEmpty then some (s.setClient k .idle) else none
  | .call k c =>
    if (s.clients k).calls.head?.all fun o => o.phase.mayNest o.call then
      some (s.setClient k { s.clients k with
        inTx := true, calls := ev.openVerb s k c :: (s.clients k).calls })
    else none
  | .run k now =>
    match (s.clients k).calls with
    | [] => none
    | o :: rest => ev.runVerb s k now o rest
  | .error k =>
    match (s.clients k).calls with
    | [] => none
    | o :: rest => some (s.fail k o rest)
  | .archive tenantId => some { s with archived := tenantId :: s.archived }
  | .unarchive tenantId => some { s with archived := s.archived.filter (· ≠ tenantId) }

end EntityVerbs

end Kumiko
