import Kumiko.Db.ExecutorVerbs
import Kumiko.Engine.FieldAccess

/-!
# Nested writes

`dispatch-nested-write.ts`, `nested-write-parent-guard.ts` and `extractNestedSpecs` of `dispatcher-utils.ts`.
The items under the keys of a `:create` command's `hasMany` relations become creates of their own behind the
parent's, with its id as foreign key. Before the first child, the row the parent's handler returned is checked.
What a handler does is a parameter; a batch is one transaction (a `perCommand` handler is not expanded).
-/

namespace Kumiko

variable {D : Type*} {row stored : FieldRow} {id : String} {field : FieldDef D}

/-! ## Qualified names -/

/-- Reference: `QN_SEGMENT`. -/
def isQnSegment : List Char → Bool
  | [] => false
  | c :: cs => c.isLower && cs.all fun c => c.isLower || c.isDigit || c == '-'

/-- Reference: `ParsedQn`, with the segments of the name. -/
structure ParsedQn where
  scope : String
  type : String
  name : List (List Char)
  deriving DecidableEq

/-- Reference: `parseQn`; `none` where it throws. -/
def parseQn (value : String) : Option ParsedQn :=
  match value.toList.splitOn ':' with
  | scope :: type :: name@(_ :: _) =>
    if isQnSegment scope && isQnSegment type && name.all isQnSegment then
      some ⟨String.ofList scope, String.ofList type, name⟩
    else none
  | _ => none

/-- `name.endsWith(":create")` -/
def ParsedQn.isCreate (parsed : ParsedQn) : Bool :=
  1 < parsed.name.length && parsed.name.getLast? == some "create".toList

/-- Reference: `RESERVED_QN_SEGMENTS`. -/
def reservedQnSegments : List String :=
  ["write", "query", "hook", "job", "notify", "event", "channel", "config", "secret", "screen", "nav", "probe",
    "stream", "projection", "workspace"]

/-- Reference: `isDoubleQualified`. -/
def isDoubleQualified (scope : String) : List (List Char) → Bool
  | first :: second :: _ => String.ofList first == scope && reservedQnSegments.contains (String.ofList second)
  | _ => false

/-- Reference: `qn`; `none` where it throws. -/
def qn (scope type name : String) : Option String :=
  let nameSegments := name.toList.splitOn ':'
  if isQnSegment scope.toList && isQnSegment type.toList && nameSegments.all isQnSegment &&
      !isDoubleQualified scope nameSegments then
    some (scope ++ ":" ++ type ++ ":" ++ name)
  else none

/-! ## Errors -/

/-- Reference: `FieldIssue`. -/
structure NestedFieldIssue where
  path : String
  code : String
  i18nKey : String

/-- Why a write fails. -/
inductive NestedWriteError where
  /-- `ValidationError` -/
  | validationError (fields : List NestedFieldIssue)
  /-- `AccessDeniedError` with the `field_access_denied` reason. -/
  | accessDenied (message i18nKey : String) (field : Option String) (handler : String)
  /-- `InternalError` -/
  | internalError (message : String)
  /-- Any other failure of a handler. -/
  | handlerError (code : String)
  /-- An exception that nothing on the way to the batch turns into a result. -/
  | thrown

/-- Reference: `prefixValidationPath`. -/
def prefixValidationPath (info : NestedWriteError) (path : String) : NestedWriteError :=
  match info with
  | .validationError fields => .validationError (fields.map fun f => { f with path := path ++ "." ++ f.path })
  | info => info

/-! ## The registry and the tables -/

/-- What a nested write reads of a relation. Reference: `RelationDefinition`. -/
inductive NestedRelation where
  | belongsTo
  | hasMany (target foreignKey : String) (nestedWrite : Bool)
  | manyToMany

/-- The rows of each entity by their id. -/
abbrev EntityTables := String → String → Option FieldRow

/-- Reference: `WriteResult`. -/
inductive HandlerResult where
  | success (data : StoredValue)
  | failure (error : NestedWriteError)

/-- What a nested write asks the registry, and the dispatcher's `executeWrite`. -/
structure NestedContext (D : Type*) where
  getHandlerEntity : String → Option String
  getEntity : String → Option (GuardedEntity D)
  getRelations : String → List (String × NestedRelation)
  isHandlerSystemScoped : String → Bool
  isPerCommandHandler : String → Bool
  /-- The entity's table has a tenant column. -/
  hasTenantColumn : String → Bool
  /-- The gates, the handler and the hooks behind it, on the tables the transaction sees. -/
  executeWrite : EntityTables → String → JsonValue → SessionUser → HandlerResult × EntityTables
  /-- The i-th code unit of a string, for an item that is one. -/
  codeUnitAt : String → ℕ → JsonValue
  /-- The order `localeCompare` sorts keys in. -/
  collates : String → String → Bool

/-- One call of `executeWrite`. -/
structure WriteCall where
  type : String
  payload : JsonValue
  before : EntityTables
  result : HandlerResult
  after : EntityTables

/-! ## Payloads -/

/-- Reference: `NestedSpec`. -/
structure NestedSpec where
  key : String
  subType : String
  foreignKey : String
  items : List JsonValue

/-- What a relation finds under its key. -/
inductive NestedEntry where
  | typeIssue (issue : NestedFieldIssue)
  | expanded (spec : NestedSpec)

/-- What `extractNestedSpecs` returns. -/
structure NestedPayload where
  cleanPayload : List (String × JsonValue)
  specs : List NestedSpec
  typeIssues : List NestedFieldIssue

/-- One round of the loop over the relations; an error where `qn` throws. -/
def nestedEntry (parsed : ParsedQn) (source : List (String × JsonValue)) :
    String × NestedRelation → Except NestedWriteError (Option NestedEntry)
  | (relKey, .hasMany target foreignKey true) =>
    match source.lookup relKey with
    | none => .ok none
    | some (.array items) =>
      match qn parsed.scope parsed.type (target ++ ":create") with
      | none => .error .thrown
      | some subType => .ok (some (.expanded ⟨relKey, subType, foreignKey, items⟩))
    | some _ => .ok (some (.typeIssue ⟨relKey, "invalid_type", "errors.validation.invalid_type"⟩))
  | _ => .ok none

/-- The key a relation took from the payload. -/
def NestedEntry.key : NestedEntry → String
  | .typeIssue issue => issue.path
  | .expanded spec => spec.key

def NestedEntry.spec? : NestedEntry → Option NestedSpec
  | .typeIssue _ => none
  | .expanded spec => some spec

def NestedEntry.typeIssue? : NestedEntry → Option NestedFieldIssue
  | .typeIssue issue => some issue
  | .expanded _ => none

/-- `typeof item === "object" && key in item`; nothing is called like a member of a prototype. -/
def JsonValue.hasKey (key : String) : JsonValue → Bool
  | .object entries => (entries.map Prod.fst).contains key
  | .array items => key == "length" || ((List.range items.length).map toString).contains key
  | _ => false

/-- Reference: `collectNestedForeignKeyIssues`. -/
def collectNestedForeignKeyIssues (nested : NestedPayload) : List NestedFieldIssue :=
  nested.typeIssues ++ nested.specs.flatMap fun spec => spec.items.zipIdx.filterMap fun (item, i) =>
    if item.hasKey spec.foreignKey then
      some ⟨spec.key ++ "." ++ toString i ++ "." ++ spec.foreignKey, "unexpected_field",
        "errors.validation.unexpected_field"⟩
    else none

/-- `value[key]`, for an object. -/
def JsonValue.property (key : String) : JsonValue → JsonValue
  | .object entries => (entries.lookup key).getD .undefined
  | _ => .undefined

def JsonValue.isNullish : JsonValue → Bool
  | .undefined | .null => true
  | _ => false

/-- The object a value is. -/
def asRow : StoredValue → Option FieldRow
  | ⟨.object entries, h⟩ =>
    some (entries.attach.map fun entry =>
      (entry.1.1, ⟨entry.1.2, by cases h with | object _ h => exact h _ _ entry.2⟩))
  | _ => none

/-- The row in what a handler returns; `none` where there is no property to read. Reference: `unwrapSaveRow`. -/
def unwrapSaveRow (data : StoredValue) : Option StoredValue :=
  match asRow data with
  | none => if data.1.isNullish then none else some data
  | some wrapper =>
    match wrapper.lookup "data" with
    | none => some data
    | some inner => if inner.1.isNullish then some data else some inner

/-- A row whose `id` is a string, with the id. -/
def identifiedRow (data : StoredValue) : Option (FieldRow × String) :=
  match asRow data with
  | none => none
  | some row =>
    match row.get "id" with
    | .prim (.string id) => some (row, id)
    | _ => none

namespace NestedContext

variable (ctx : NestedContext D)

/-- Reference: `extractNestedSpecs`; an error where it throws. -/
def extractNestedSpecs (parentType : String) (payload : JsonValue) :
    Except NestedWriteError (Option NestedPayload) :=
  match payload, parseQn parentType, ctx.getHandlerEntity parentType with
  | .object source, some parsed, some entityName =>
    if !parsed.isCreate then .ok none
    else
      match (ctx.getRelations entityName).mapM (nestedEntry parsed source) with
      | .error error => .error error
      | .ok entries =>
        let found := entries.reduceOption
        if found.isEmpty then .ok none
        else .ok (some ⟨source.filter fun entry => !(found.map NestedEntry.key).contains entry.1,
          found.filterMap NestedEntry.spec?, found.filterMap NestedEntry.typeIssue?⟩)
  | _, _, _ => .ok none

/-- `{ ...(rawItem ?? {}) }` -/
def ownEntries (item : JsonValue) : List (String × JsonValue) :=
  match item with
  | .object entries => entries
  | .array items => items.zipIdx.map fun (item, i) => (toString i, item)
  | .prim (.string s) => (List.range (codeUnitCount s)).map fun i => (toString i, ctx.codeUnitAt s i)
  | _ => []

/-- `{ ...itemObj, [foreignKey]: parentId }` -/
def subPayload (item : JsonValue) (foreignKey parentId : String) : JsonValue :=
  .object ((ctx.ownEntries item).filter (fun entry => entry.1 != foreignKey) ++
    [(foreignKey, .prim (.string parentId))])

def call (tables : EntityTables) (type : String) (payload : JsonValue) (user : SessionUser) : WriteCall :=
  ⟨type, payload, tables, (ctx.executeWrite tables type payload user).1,
    (ctx.executeWrite tables type payload user).2⟩

/-! ## The parent guard -/

/-- `callerDb.fetchOne(table, { id })`, through the tenant filter of the caller. -/
def fetchOne (tables : EntityTables) (entityName id : String) (user : SessionUser) : Option FieldRow :=
  (tables entityName id).filter fun row =>
    !ctx.hasTenantColumn entityName || row.toJs "tenantId" == .prim (.string user.tenantId) ||
      row.toJs "tenantId" == .prim (.string systemTenantId)

/-- Reference: `isParentRowHiddenFromCaller`; an entity that is registered has a table. -/
def isParentRowHiddenFromCaller (tables : EntityTables) (parentEntityName : Option String) (parentId : String)
    (user : SessionUser) : Bool :=
  match parentEntityName with
  | none => true
  | some entityName =>
    match ctx.getEntity entityName, ctx.fetchOne tables entityName parentId user with
    | some _, some visibleRow =>
      ctx.hasTenantColumn entityName && visibleRow.toJs "tenantId" != .prim (.string user.tenantId)
    | _, _ => true

/-- Reference: `isCallerScoped`, `isForeignTenantParentRow` and the branch between them. -/
def isParentForeign (tables : EntityTables) (type : String) (parentRow : FieldRow) (parentId : String)
    (user : SessionUser) : Bool :=
  !ctx.isHandlerSystemScoped type &&
    match parentRow.get "tenantId" with
    | .prim (.string rowTenantId) => rowTenantId != user.tenantId
    | _ => ctx.isParentRowHiddenFromCaller tables (ctx.getHandlerEntity type) parentId user

/-- Reference: `completeParentRow`. -/
def completeParentRow (tables : EntityTables) (parentEntityName : String) (parentEntity : GuardedEntity D)
    (parentRow : FieldRow) (parentId : String) (user : SessionUser) : FieldRow :=
  if parentEntity.fields.all fun (fieldName, _) => (parentRow.map Prod.fst).contains fieldName then parentRow
  else
    match ctx.fetchOne tables parentEntityName parentId user with
    | none => parentRow
    | some stored => stored.spread parentRow

/-- Reference: `rejectUnverifiedParent`. -/
def rejectUnverifiedParent (tables : EntityTables) (type : String) (parentRow : FieldRow) (parentId : String)
    (user : SessionUser) : Option NestedWriteError :=
  if ctx.isParentForeign tables type parentRow parentId user then
    some (.accessDenied ("nested-write: parent row belongs to another tenant — refusing to attach children to \"" ++
      type ++ "\"") "errors.access.denied" none type)
  else
    match ctx.getHandlerEntity type with
    | none => none
    | some parentEntityName =>
      match ctx.getEntity parentEntityName with
      | none => none
      | some parentEntity =>
        let ownershipRow := ctx.completeParentRow tables parentEntityName parentEntity parentRow parentId user
        match checkWriteFieldOwnership ctx.collates parentEntity ownershipRow user none ownershipRow false with
        | none => none
        | some deniedField =>
          some (.accessDenied ("nested-write: parent row ownership check failed on field \"" ++ deniedField ++
            "\" of \"" ++ type ++ "\" — refusing to attach children to a parent row the caller does not own")
            "errors.access.fieldDenied" (some deniedField) type)

end NestedContext

/-! ## The write -/

/-- The create of one item. -/
structure ChildCall where
  spec : NestedSpec
  item : JsonValue
  call : WriteCall

/-- The children written so far, and the failure that ended them. -/
structure ChildrenRun where
  failure : Option NestedWriteError
  children : List ChildCall
  tables : EntityTables

/-- A command as `executeNestedWrite` ran it: the lists it expanded, the parent's create and the children's. -/
structure NestedRun where
  failure : Option NestedWriteError
  specs : List NestedSpec
  parent : Option WriteCall
  children : List ChildCall
  tables : EntityTables

/-- A batch, and the tables after it. -/
structure NestedBatch where
  failure : Option NestedWriteError
  runs : List NestedRun
  committed : EntityTables

def HandlerResult.error? : HandlerResult → Option NestedWriteError
  | .success _ => none
  | .failure error => some error

namespace NestedContext

variable (ctx : NestedContext D)

/-- The items of a list from the i-th on. Reference: `writeNestedChildren`. The rows the client gets back, with
write-only fields masked, are left out. -/
def writeNestedChildren (spec : NestedSpec) (parentId : String) (user : SessionUser) :
    ℕ → List JsonValue → EntityTables → ChildrenRun
  | _, [], tables => ⟨none, [], tables⟩
  | i, item :: items, tables =>
    let call := ctx.call tables spec.subType (ctx.subPayload item spec.foreignKey parentId) user
    match call.result with
    | .failure error =>
      ⟨some (prefixValidationPath error (spec.key ++ "." ++ toString i)), [⟨spec, item, call⟩], call.after⟩
    | .success data =>
      match unwrapSaveRow data with
      | none => ⟨some .thrown, [⟨spec, item, call⟩], call.after⟩
      | some _ =>
        let rest := writeNestedChildren spec parentId user (i + 1) items call.after
        { rest with children := ⟨spec, item, call⟩ :: rest.children }

/-- The loop over the lists. -/
def writeNestedSpecs (parentId : String) (user : SessionUser) : List NestedSpec → EntityTables → ChildrenRun
  | [], tables => ⟨none, [], tables⟩
  | spec :: specs, tables =>
    let children := ctx.writeNestedChildren spec parentId user 0 spec.items tables
    match children.failure with
    | some _ => children
    | none =>
      let rest := writeNestedSpecs parentId user specs children.tables
      { rest with children := children.children ++ rest.children }

/-- A command that is not expanded. -/
def executeAlone (tables : EntityTables) (type : String) (payload : JsonValue) (user : SessionUser) : NestedRun :=
  let call := ctx.call tables type payload user
  ⟨call.result.error?, [], some call, [], call.after⟩

/-- Reference: `executeNestedWrite`. -/
def executeNestedWrite (tables : EntityTables) (type : String) (payload : JsonValue) (user : SessionUser) :
    NestedRun :=
  match ctx.extractNestedSpecs type payload with
  | .error error => ⟨some error, [], none, [], tables⟩
  | .ok none => ctx.executeAlone tables type payload user
  | .ok (some nested) =>
    match collectNestedForeignKeyIssues nested with
    | issue :: issues => ⟨some (.validationError (issue :: issues)), nested.specs, none, [], tables⟩
    | [] =>
      let call := ctx.call tables type (.object nested.cleanPayload) user
      match call.result with
      | .failure error => ⟨some error, nested.specs, some call, [], call.after⟩
      | .success data =>
        match unwrapSaveRow data with
        | none => ⟨some .thrown, nested.specs, some call, [], call.after⟩
        | some parent =>
          match identifiedRow parent with
          | none =>
            ⟨some (.internalError ("nested-write: parent handler \"" ++ type ++
              "\" returned no string \"id\" — cannot attach children")), nested.specs, some call, [], call.after⟩
          | some (parentRow, parentId) =>
            match ctx.rejectUnverifiedParent call.after type parentRow parentId user with
            | some error => ⟨some error, nested.specs, some call, [], call.after⟩
            | none =>
              let children := ctx.writeNestedSpecs parentId user nested.specs call.after
              ⟨children.failure, nested.specs, some call, children.children, children.tables⟩

/-- The commands one after another, up to the first that fails. -/
def runCommands (user : SessionUser) : List (String × JsonValue) → EntityTables → NestedBatch
  | [], tables => ⟨none, [], tables⟩
  | (type, payload) :: commands, tables =>
    let run := ctx.executeNestedWrite tables type payload user
    match run.failure with
    | some error => ⟨some error, [run], run.tables⟩
    | none =>
      let rest := runCommands user commands run.tables
      { rest with runs := run :: rest.runs }

/-- The batch in its transaction; `commits` says how the COMMIT ends. A `perCommand` handler runs alone and
without one. Reference: `runBatch`. -/
def runBatch (db : EntityTables) (commands : List (String × JsonValue)) (user : SessionUser) (commits : Bool) :
    NestedBatch :=
  if commands.any fun (type, _) => ctx.isPerCommandHandler type then
    match commands with
    | [(type, payload)] =>
      let run := ctx.executeAlone db type payload user
      ⟨run.failure, [run], run.tables⟩
    | _ => ⟨some (.handlerError "unprocessable"), [], db⟩
  else
    let batch := ctx.runCommands user commands db
    match batch.failure with
    | some _ => { batch with committed := db }
    | none => if commits then batch else ⟨some .thrown, batch.runs, db⟩

end NestedContext

/-! ## What a nested write keeps -/

/-- What a handler returns, read as it is meant: the wrapper of a save, or a row that has nothing under `data`. -/
inductive ReturnsRow : StoredValue → FieldRow → Prop
  | saveContext {data inner : StoredValue} {wrapper row : FieldRow} (hwrapper : asRow data = some wrapper)
      (hinner : wrapper.lookup "data" = some inner) (hrow : asRow inner = some row) : ReturnsRow data row
  | bareRow {data : StoredValue} {row : FieldRow} (hrow : asRow data = some row)
      (hdata : ∀ inner, row.lookup "data" = some inner → inner.1.isNullish = true) : ReturnsRow data row

/-- The column a rule reads. -/
def OwnershipRule.column? : OwnershipRule D → Option String
  | .fromRule rule => some rule.column
  | _ => none

/-- The columns the rules of an entity's fields read. -/
def GuardedEntity.ownershipColumns (entity : GuardedEntity D) : List String :=
  entity.fields.flatMap fun (_, field) =>
    ((normalizeAccessEntry field.write).getD []).filterMap fun (_, rule) => rule.column?

/-- What the row says in these columns is what the stored row holds. -/
def AgreesWith (columns : List String) (row stored : FieldRow) : Prop :=
  ∀ key ∈ columns, row.toJs key ≠ .undefined → stored.toJs key = row.toJs key

namespace NestedContext

variable (ctx : NestedContext D)

/-- The columns the parent guard reads. -/
def guardedColumns (entityName : String) : List String :=
  "tenantId" :: ((ctx.getEntity entityName).map (·.ownershipColumns)).getD []

/-- The handler returns no object, or one that stands for a row; a row it names is stored as it says. -/
def ReturnsStoredRow (type : String) : Prop :=
  ∀ tables payload user data, (ctx.call tables type payload user).result = .success data →
    asRow data = none ∨ ∃ row, ReturnsRow data row ∧ ∀ id, row.get "id" = .prim (.string id) →
      ∃ entityName stored, ctx.getHandlerEntity type = some entityName ∧
        (ctx.call tables type payload user).after entityName id = some stored ∧
        AgreesWith (ctx.guardedColumns entityName) row stored

/-- The call writes the row of an id. -/
def WritesRow (call : WriteCall) (id : String) : Prop :=
  ∃ entityName row, ctx.getHandlerEntity call.type = some entityName ∧ call.after entityName id = some row ∧
    call.before entityName id ≠ some row

/-- The handler writes the row it returns. -/
def WritesReturnedRow (type : String) : Prop :=
  ∀ tables payload user data row id, (ctx.call tables type payload user).result = .success data →
    ReturnsRow data row → row.get "id" = .prim (.string id) → ctx.WritesRow (ctx.call tables type payload user) id

/-- The row of an id is one in the user's tenant that the ownership rules let the user write. -/
def OwnRow (user : SessionUser) (call : WriteCall) (id : String) : Prop :=
  ∃ entityName row, ctx.getHandlerEntity call.type = some entityName ∧ call.after entityName id = some row ∧
    (ctx.hasTenantColumn entityName = true → row.toJs "tenantId" = .prim (.string user.tenantId)) ∧
    ∀ entity, ctx.getEntity entityName = some entity →
      checkWriteFieldOwnership ctx.collates entity row user none row false = none

/-- The rows a create writes carry the payload's foreign key. -/
def KeepsForeignKey (subType foreignKey : String) : Prop :=
  ∀ tables payload user entityName id row, ctx.getHandlerEntity subType = some entityName →
    (ctx.call tables subType payload user).after entityName id = some row → tables entityName id ≠ some row →
    row.get foreignKey = payload.property foreignKey

/-- The child's create names this parent, the item named none, and so do the rows it writes. -/
structure AttachedTo (id : String) (child : ChildCall) : Prop where
  payload : child.call.payload.property child.spec.foreignKey = .prim (.string id)
  unnamed : child.item.hasKey child.spec.foreignKey = false
  rows : ∀ entityName rowId row, ctx.getHandlerEntity child.spec.subType = some entityName →
    child.call.after entityName rowId = some row → child.call.before entityName rowId ≠ some row →
    row.get child.spec.foreignKey = .prim (.string id)

/-- Every child is attached to the one parent of its command, every list is written whole, and nothing of a
batch stays when a child fails. -/
structure NestedSafe (db : EntityTables) (user : SessionUser) (batch : NestedBatch) : Prop where
  attached : ∀ run ∈ batch.runs, ∀ child ∈ run.children, ∃ call id, run.parent = some call ∧
    (ctx.WritesRow call id ∨ ctx.OwnRow user call id) ∧ ctx.AttachedTo id child
  whole : ∀ run ∈ batch.runs, run.failure = none →
    run.children.map (fun child => (child.spec, child.item)) =
      run.specs.flatMap fun spec => spec.items.map fun item => (spec, item)
  atomic : ∀ run ∈ batch.runs, ∀ child ∈ run.children, ∀ error, child.call.result = .failure error →
    batch.committed = db

end NestedContext

/-! ## The parent -/

theorem unwrapSaveRow_of_returnsRow {data parent : StoredValue} {row parentRow : FieldRow}
    (h : ReturnsRow data row) (hunwrap : unwrapSaveRow data = some parent)
    (hid : identifiedRow parent = some (parentRow, id)) : parentRow = row ∧ row.get "id" = .prim (.string id) := by
  have hparent : asRow parent = some row := by
    cases h with
    | saveContext hwrapper hinner hrow =>
      have hobject : ∀ inner : StoredValue, asRow inner = some row → inner.1.isNullish = false := by
        rintro ⟨v, hv⟩ h
        cases v with
        | undefined | null => cases h
        | prim | array | object => rfl
      simp only [unwrapSaveRow, hwrapper, hinner, hobject _ hrow] at hunwrap
      cases hunwrap
      exact hrow
    | bareRow hrow hdata =>
      simp only [unwrapSaveRow, hrow] at hunwrap
      split at hunwrap
      · cases hunwrap
        exact hrow
      · next inner hinner =>
        simp only [hdata inner hinner] at hunwrap
        cases hunwrap
        exact hrow
  simp only [identifiedRow, hparent] at hid
  split at hid
  · next hget =>
    cases hid
    exact ⟨rfl, hget⟩
  · cases hid

/-- A value that is no object has no id to attach children to. -/
theorem identifiedRow_of_noRow {data parent : StoredValue} (h : asRow data = none)
    (hunwrap : unwrapSaveRow data = some parent) : identifiedRow parent = none := by
  simp only [unwrapSaveRow, h] at hunwrap
  split at hunwrap
  · cases hunwrap
  · cases hunwrap
    simp only [identifiedRow, h]

section

variable {user : SessionUser} {entity : GuardedEntity D} {collates : String → String → Bool}

theorem column_mem {key role : String} {accessMap : OwnershipMap D} {rule : FromRule}
    (hfield : entity.fields.lookup key = some field) (hmap : normalizeAccessEntry field.write = some accessMap)
    (hrule : accessMap.lookup role = some (.fromRule rule)) : rule.column ∈ entity.ownershipColumns := by
  refine List.mem_flatMap.2 ⟨(key, field), mem_of_lookup hfield, List.mem_filterMap.2 ?_⟩
  refine ⟨(role, .fromRule rule), ?_, rfl⟩
  simp only [hmap, Option.getD_some]
  exact mem_of_lookup hrule

/-- A rule that accepts a row reads a value in it. -/
theorem matchesRule_of_agrees {rule : FromRule} {row stored : String → JsValue}
    (hagrees : row rule.column ≠ .undefined → stored rule.column = row rule.column)
    (h : matchesRule rule user row = true) : matchesRule rule user stored = true := by
  by_cases hundefined : row rule.column = .undefined
  · simp only [matchesRule, hundefined] at h
    split at h <;> cases h
  · simp only [matchesRule, hagrees hundefined] at h ⊢
    exact h

theorem userCanWriteFieldRow_of_agrees {key : String} {accessMap : OwnershipMap D}
    (hfield : entity.fields.lookup key = some field) (hmap : normalizeAccessEntry field.write = some accessMap)
    (hagrees : AgreesWith entity.ownershipColumns row stored)
    (h : userCanWriteFieldRow user (some accessMap) row.toJs row.toJs = true) :
    userCanWriteFieldRow user (some accessMap) stored.toJs stored.toJs = true := by
  refine userCanWriteFieldRow_iff.2 ((userCanWriteFieldRow_iff.1 h).imp_right ?_)
  rintro ⟨role, hrole, rule, hrule, haccepts⟩
  refine ⟨role, hrole, rule, hrule, ?_⟩
  cases rule with
  | all => rfl
  | whereRule _ => cases haccepts
  | fromRule rule =>
    simp only [OwnershipRule.acceptsBoth, Bool.and_self] at haccepts ⊢
    exact matchesRule_of_agrees (hagrees _ (column_mem hfield hmap hrule)) haccepts

/-- Without a previous row and without its sub-fields, only the field's own map is left of the check. -/
theorem deniedField_of_row {row : FieldRow} {key : String} {value : JsonValue}
    (hfield : entity.fields.lookup key = some field) :
    deniedField collates entity user none row false key value =
      match normalizeAccessEntry field.write with
      | none => none
      | some accessMap =>
        if accessMap.all (·.2.isAll) then none
        else if userCanWriteFieldRow user (some accessMap) row.toJs row.toJs then none else some key := by
  obtain ⟨type, write, default⟩ := field
  simp only [deniedField, hfield, Bool.false_eq_true, if_false, Option.getD_none, FieldRow.spread, List.append_nil]
  cases type <;> rfl

/-- A field the check lets pass on a row passes on the stored row the row agrees with. -/
theorem deniedField_of_agrees {key : String} {value value' : JsonValue}
    (hagrees : AgreesWith entity.ownershipColumns row stored)
    (h : deniedField collates entity user none row false key value = none) :
    deniedField collates entity user none stored false key value' = none := by
  cases hfield : entity.fields.lookup key with
  | none => simp only [deniedField, hfield]
  | some field =>
    rw [deniedField_of_row hfield] at h ⊢
    cases hmap : normalizeAccessEntry field.write with
    | none => rfl
    | some accessMap =>
      simp only [hmap] at h ⊢
      split
      · rfl
      · next hall =>
        rw [if_neg hall] at h
        split at h
        · next hcan => rw [if_pos (userCanWriteFieldRow_of_agrees hfield hmap hagrees hcan)]
        · cases h

/-- The keys a row has over a stored one are those of either. -/
theorem agreesWith_spread {columns : List String} (h : AgreesWith columns row stored) :
    AgreesWith columns (stored.spread row) stored := by
  intro key hkey hne
  by_cases hrow : (row.lookup key).isSome
  · have hget : (stored.spread row).toJs key = row.toJs key := by
      obtain ⟨value, hvalue⟩ := Option.isSome_iff_exists.1 hrow
      simp only [FieldRow.toJs, FieldRow.get, FieldRow.spread, List.lookup_append, hvalue, Option.some_or]
    rw [hget] at hne ⊢
    exact h key hkey hne
  · simp only [Option.not_isSome_iff_eq_none] at hrow
    simp only [FieldRow.toJs, FieldRow.get, FieldRow.spread, List.lookup_append, hrow, Option.none_or]

end

namespace NestedContext

variable {ctx : NestedContext D} {user : SessionUser} {type entityName : String} {tables : EntityTables}

/-- A parent of the caller's tenant, where the guard finds it no foreign one. -/
theorem tenant_of_not_foreign
    (hscope : ctx.isHandlerSystemScoped type = false) (hentity : ctx.getHandlerEntity type = some entityName)
    (hstored : tables entityName id = some stored) (hagrees : AgreesWith (ctx.guardedColumns entityName) row stored)
    (h : ctx.isParentForeign tables type row id user = false) (hcolumn : ctx.hasTenantColumn entityName = true) :
    stored.toJs "tenantId" = .prim (.string user.tenantId) := by
  simp only [isParentForeign, hscope, Bool.not_false, Bool.true_and] at h
  split at h
  · next rowTenantId hget =>
    have hrow : row.toJs "tenantId" = .prim (.string rowTenantId) := by rw [FieldRow.toJs, hget, JsonValue.toJs]
    rw [hagrees "tenantId" List.mem_cons_self (by rw [hrow]; exact nofun), hrow]
    simpa using h
  · simp only [isParentRowHiddenFromCaller, hentity] at h
    split at h
    · next visibleRow _ hvisible =>
      simp only [fetchOne, hstored, Option.filter_eq_some_iff] at hvisible
      obtain ⟨hvisible, -⟩ := hvisible
      cases hvisible
      simpa [hcolumn] using h
    · cases h

theorem fetchOne_of_tenant {stored : FieldRow} (hstored : tables entityName id = some stored)
    (htenant : ctx.hasTenantColumn entityName = true → stored.toJs "tenantId" = .prim (.string user.tenantId)) :
    ctx.fetchOne tables entityName id user = some stored := by
  rw [fetchOne, hstored, Option.filter_eq_some_iff]
  refine ⟨rfl, ?_⟩
  cases hcolumn : ctx.hasTenantColumn entityName with
  | false => rfl
  | true => simp [htenant hcolumn]

/-- The completed row has a value under every field of the entity that the stored row has one for. -/
theorem key_mem_completeParentRow {entity : GuardedEntity D}
    {id key : String} (hfield : entity.fields.lookup key = some field)
    (hfetch : ctx.fetchOne tables entityName id user = some stored) (hkey : key ∈ stored.map Prod.fst) :
    key ∈ (ctx.completeParentRow tables entityName entity row id user).map Prod.fst := by
  rw [completeParentRow]
  split
  · next hall =>
    have := List.all_eq_true.1 hall (key, field) (mem_of_lookup hfield)
    simpa using this
  · simp only [hfetch, FieldRow.spread, List.map_append, List.mem_append]
    exact .inr hkey

theorem agreesWith_completeParentRow {entity : GuardedEntity D}
    {columns : List String} (hfetch : ctx.fetchOne tables entityName id user = some stored)
    (hagrees : AgreesWith columns row stored) :
    AgreesWith columns (ctx.completeParentRow tables entityName entity row id user) stored := by
  rw [completeParentRow]
  split
  · exact hagrees
  · simp only [hfetch]
    exact agreesWith_spread hagrees

/-- The guard's answer on the returned row holds of the stored row. -/
theorem ownRow_of_guard {call : WriteCall} (hscope : ctx.isHandlerSystemScoped call.type = false)
    (hentity : ctx.getHandlerEntity call.type = some entityName) (hstored : call.after entityName id = some stored)
    (hagrees : AgreesWith (ctx.guardedColumns entityName) row stored)
    (h : ctx.rejectUnverifiedParent call.after call.type row id user = none) : ctx.OwnRow user call id := by
  rw [rejectUnverifiedParent] at h
  split at h
  · cases h
  next hforeign =>
  have htenant := tenant_of_not_foreign hscope hentity hstored hagrees (eq_false_of_ne_true hforeign)
  refine ⟨entityName, stored, hentity, hstored, htenant, fun entity hget => ?_⟩
  have hfetch := fetchOne_of_tenant hstored htenant
  simp only [hentity, hget] at h
  split at h
  · next hcheck =>
    refine List.findSome?_eq_none_iff.2 fun entry hentry => ?_
    cases hfield : entity.fields.lookup entry.1 with
    | none => simp only [deniedField, hfield]
    | some field =>
      have hkey : entry.1 ∈ (ctx.completeParentRow call.after entityName entity row id user).map Prod.fst :=
        key_mem_completeParentRow hfield hfetch (List.mem_map_of_mem hentry)
      obtain ⟨⟨key, value⟩, hentry', hfst⟩ := List.mem_map.1 hkey
      obtain rfl : key = entry.1 := hfst
      have hpassed := List.findSome?_eq_none_iff.1 hcheck (entry.1, value) hentry'
      refine deniedField_of_agrees (agreesWith_completeParentRow hfetch fun column hcolumn => ?_) hpassed
      refine hagrees column (List.mem_cons_of_mem _ ?_)
      rw [hget]
      exact hcolumn
  · cases h

/-! ## The children -/

/-- What the creates of some items were: one for each, each naming this parent, up to the first that fails. -/
structure Wrote (ctx : NestedContext D) (user : SessionUser) (parentId : String)
    (items : List (NestedSpec × JsonValue)) (run : ChildrenRun) : Prop where
  child : ∀ child ∈ run.children, (child.spec, child.item) ∈ items ∧ ∃ tables, child.call =
    ctx.call tables child.spec.subType (ctx.subPayload child.item child.spec.foreignKey parentId) user
  failed : ∀ child ∈ run.children, ∀ error, child.call.result = .failure error → run.failure ≠ none
  whole : run.failure = none → run.children.map (fun child => (child.spec, child.item)) = items

variable {parentId : String}

theorem wrote_writeNestedChildren (spec : NestedSpec) (i : ℕ) (items : List JsonValue) (tables : EntityTables) :
    Wrote ctx user parentId (items.map fun item => (spec, item))
      (ctx.writeNestedChildren spec parentId user i items tables) := by
  induction items generalizing i tables with
  | nil => exact ⟨nofun, nofun, fun _ => rfl⟩
  | cons item items ih =>
    rw [writeNestedChildren]
    set call := ctx.call tables spec.subType (ctx.subPayload item spec.foreignKey parentId) user with hcall
    have hhead : (spec, item) ∈ (item :: items).map fun item => (spec, item) := List.mem_cons_self
    cases hresult : call.result with
    | failure error =>
      refine ⟨fun child hchild => ?_, fun _ _ _ _ => Option.some_ne_none _, nofun⟩
      cases List.mem_singleton.1 hchild
      exact ⟨hhead, tables, hcall⟩
    | success data =>
      cases hunwrap : unwrapSaveRow data with
      | none =>
        simp only [hunwrap]
        refine ⟨fun child hchild => ?_, fun _ _ _ _ => Option.some_ne_none _, nofun⟩
        cases List.mem_singleton.1 hchild
        exact ⟨hhead, tables, hcall⟩
      | some _ =>
        simp only [hunwrap]
        have hrest := ih (i + 1) call.after
        refine ⟨fun child hchild => ?_, fun child hchild error herror => ?_, fun hnone => ?_⟩
        · cases hchild with
          | head => exact ⟨hhead, tables, hcall⟩
          | tail _ hchild => exact (hrest.child child hchild).imp_left (List.mem_cons_of_mem _)
        · cases hchild with
          | head => rw [hresult] at herror; cases herror
          | tail _ hchild => exact hrest.failed child hchild error herror
        · rw [List.map_cons, List.map_cons, hrest.whole hnone]

theorem wrote_writeNestedSpecs (specs : List NestedSpec) (tables : EntityTables) :
    Wrote ctx user parentId (specs.flatMap fun spec => spec.items.map fun item => (spec, item))
      (ctx.writeNestedSpecs parentId user specs tables) := by
  induction specs generalizing tables with
  | nil => exact ⟨nofun, nofun, fun _ => rfl⟩
  | cons spec specs ih =>
    rw [writeNestedSpecs, List.flatMap_cons]
    have hlist : Wrote ctx user parentId _ (ctx.writeNestedChildren spec parentId user 0 spec.items tables) :=
      wrote_writeNestedChildren ..
    set children := ctx.writeNestedChildren spec parentId user 0 spec.items tables
    cases hfailure : children.failure with
    | some error =>
      refine ⟨fun child hchild => (hlist.child child hchild).imp_left (List.mem_append_left _), hlist.failed, ?_⟩
      intro hnone
      rw [hfailure] at hnone
      cases hnone
    | none =>
      have hrest := ih children.tables
      refine ⟨fun child hchild => ?_, fun child hchild error herror => ?_, fun hnone => ?_⟩
      · rcases List.mem_append.1 hchild with hchild | hchild
        · exact (hlist.child child hchild).imp_left (List.mem_append_left _)
        · exact (hrest.child child hchild).imp_left (List.mem_append_right _)
      · rcases List.mem_append.1 hchild with hchild | hchild
        · exact absurd hfailure (hlist.failed child hchild error herror)
        · exact hrest.failed child hchild error herror
      · rw [List.map_append, hlist.whole hfailure, hrest.whole hnone]

theorem property_subPayload (item : JsonValue) (foreignKey parentId : String) :
    (ctx.subPayload item foreignKey parentId).property foreignKey = .prim (.string parentId) := by
  have hnone : ((ctx.ownEntries item).filter fun entry => entry.1 != foreignKey).lookup foreignKey = none := by
    refine List.lookup_eq_none_iff.2 fun entry hentry => ?_
    have := (List.mem_filter.1 hentry).2
    simpa [bne_iff_ne, ne_comm] using this
  simp only [subPayload, JsonValue.property, List.lookup_append, hnone, Option.none_or, List.lookup_cons,
    beq_self_eq_true, Option.getD_some]

/-- No item names its parent, where the checks up front find no issue. -/
theorem hasKey_of_noIssues {nested : NestedPayload} (h : collectNestedForeignKeyIssues nested = [])
    {spec : NestedSpec} (hspec : spec ∈ nested.specs) {item : JsonValue} (hitem : item ∈ spec.items) :
    item.hasKey spec.foreignKey = false := by
  have hlist := List.flatMap_eq_nil_iff.1 (List.append_eq_nil_iff.1 h).2 spec hspec
  obtain ⟨i, hi, rfl⟩ := List.getElem_of_mem hitem
  have hmem : (spec.items[i], i) ∈ spec.items.zipIdx := by
    rw [List.mem_zipIdx_iff_getElem?]
    exact List.getElem?_eq_getElem hi
  have := List.filterMap_eq_nil_iff.1 hlist _ hmem
  by_contra hkey
  rw [Bool.not_eq_false] at hkey
  simp [hkey] at this

/-! ## Commands and batches -/

/-- What the app's handlers behind a command keep to. -/
structure WellBehaved (ctx : NestedContext D) (command : String × JsonValue) : Prop where
  scope : ctx.isHandlerSystemScoped command.1 = false ∨ ctx.WritesReturnedRow command.1
  returns : ctx.ReturnsStoredRow command.1
  keeps : ∀ nested, ctx.extractNestedSpecs command.1 command.2 = .ok (some nested) →
    ∀ spec ∈ nested.specs, ctx.KeepsForeignKey spec.subType spec.foreignKey

/-- The part of `NestedSafe` that is about one command. -/
structure RunSafe (ctx : NestedContext D) (user : SessionUser) (run : NestedRun) : Prop where
  attached : ∀ child ∈ run.children, ∃ call id, run.parent = some call ∧
    (ctx.WritesRow call id ∨ ctx.OwnRow user call id) ∧ ctx.AttachedTo id child
  whole : run.failure = none → run.children.map (fun child => (child.spec, child.item)) =
    run.specs.flatMap fun spec => spec.items.map fun item => (spec, item)
  failed : ∀ child ∈ run.children, ∀ error, child.call.result = .failure error → run.failure ≠ none

theorem runSafe_of_noChildren {run : NestedRun} (hchildren : run.children = [])
    (h : run.failure ≠ none ∨ run.specs = []) : RunSafe ctx user run := by
  refine ⟨?_, fun hnone => ?_, ?_⟩
  · rw [hchildren]
    exact nofun
  · rcases h with h | h
    · exact absurd hnone h
    · rw [hchildren, h, List.map_nil, List.flatMap_nil]
  · rw [hchildren]
    exact nofun

/-- The row the guard lets through is the one the handler meant, written by this call or the caller's own. -/
theorem parent_of_guard {payload : JsonValue} {data parent : StoredValue} {row : FieldRow}
    (hscope : ctx.isHandlerSystemScoped type = false ∨ ctx.WritesReturnedRow type)
    (hreturns : ctx.ReturnsStoredRow type) (hresult : (ctx.call tables type payload user).result = .success data)
    (hunwrap : unwrapSaveRow data = some parent) (hid : identifiedRow parent = some (row, id))
    (hguard : ctx.rejectUnverifiedParent (ctx.call tables type payload user).after type row id user = none) :
    ctx.WritesRow (ctx.call tables type payload user) id ∨ ctx.OwnRow user (ctx.call tables type payload user) id := by
  rcases hreturns tables payload user data hresult with hnone | ⟨meant, hmeant, hstored⟩
  · rw [identifiedRow_of_noRow hnone hunwrap] at hid
    cases hid
  obtain ⟨rfl, hget⟩ := unwrapSaveRow_of_returnsRow hmeant hunwrap hid
  rcases hscope with hscope | hwrites
  · obtain ⟨entityName, stored, hentity, hafter, hagrees⟩ := hstored id hget
    exact .inr (ownRow_of_guard hscope hentity hafter hagrees hguard)
  · exact .inl (hwrites tables payload user data row id hresult hmeant hget)

theorem attachedTo_of_wrote {nested : NestedPayload} {run : ChildrenRun} {child : ChildCall}
    (hwrote : Wrote ctx user parentId (nested.specs.flatMap fun spec => spec.items.map fun item => (spec, item)) run)
    (hissues : collectNestedForeignKeyIssues nested = [])
    (hkeeps : ∀ spec ∈ nested.specs, ctx.KeepsForeignKey spec.subType spec.foreignKey)
    (hchild : child ∈ run.children) : ctx.AttachedTo parentId child := by
  obtain ⟨hmem, tables, hcall⟩ := hwrote.child child hchild
  obtain ⟨spec, hspec, hitem⟩ := List.mem_flatMap.1 hmem
  obtain ⟨item, hitem, heq⟩ := List.mem_map.1 hitem
  obtain ⟨rfl, rfl⟩ := Prod.mk.inj heq
  have hpayload : child.call.payload.property child.spec.foreignKey = .prim (.string parentId) := by
    rw [hcall]
    exact property_subPayload ..
  refine ⟨hpayload, hasKey_of_noIssues hissues hspec hitem, fun entityName rowId row hentity hafter hbefore => ?_⟩
  rw [hcall] at hafter hbefore hpayload
  rw [hkeeps _ hspec tables _ user entityName rowId row hentity hafter hbefore]
  exact hpayload

theorem runSafe_executeNestedWrite {payload : JsonValue} (h : WellBehaved ctx (type, payload))
    (tables : EntityTables) : RunSafe ctx user (ctx.executeNestedWrite tables type payload user) := by
  rw [executeNestedWrite]
  split
  · exact runSafe_of_noChildren rfl (.inl (Option.some_ne_none _))
  · exact runSafe_of_noChildren rfl (.inr rfl)
  next nested hnested =>
  split
  · exact runSafe_of_noChildren rfl (.inl (Option.some_ne_none _))
  next hissues =>
  dsimp only
  split
  · exact runSafe_of_noChildren rfl (.inl (Option.some_ne_none _))
  next data hresult =>
  split
  · exact runSafe_of_noChildren rfl (.inl (Option.some_ne_none _))
  next parent hunwrap =>
  split
  · exact runSafe_of_noChildren rfl (.inl (Option.some_ne_none _))
  next row id hid =>
  split
  · exact runSafe_of_noChildren rfl (.inl (Option.some_ne_none _))
  next hguard =>
  have hwrote : Wrote ctx user id _ (ctx.writeNestedSpecs id user nested.specs
      (ctx.call tables type (.object nested.cleanPayload) user).after) := wrote_writeNestedSpecs ..
  refine ⟨fun child hchild => ⟨_, id, rfl, ?_, ?_⟩, hwrote.whole, hwrote.failed⟩
  · exact parent_of_guard h.scope h.returns hresult hunwrap hid hguard
  · exact attachedTo_of_wrote hwrote hissues (h.keeps nested hnested) hchild

/-- The commands of a batch run one by one, and one that fails ends the batch. -/
theorem runSafe_runCommands {commands : List (String × JsonValue)}
    (h : ∀ command ∈ commands, WellBehaved ctx command) (tables : EntityTables) :
    ∀ run ∈ (ctx.runCommands user commands tables).runs, RunSafe ctx user run ∧
      (run.failure ≠ none → (ctx.runCommands user commands tables).failure ≠ none) := by
  induction commands generalizing tables with
  | nil => exact nofun
  | cons command commands ih =>
    obtain ⟨type, payload⟩ := command
    have hhead : RunSafe ctx user (ctx.executeNestedWrite tables type payload user) :=
      runSafe_executeNestedWrite (h _ List.mem_cons_self) tables
    rw [runCommands]
    dsimp only
    split
    · intro run hrun
      cases List.mem_singleton.1 hrun
      exact ⟨hhead, fun _ => Option.some_ne_none _⟩
    · next hnone =>
      intro run hrun
      cases hrun with
      | head => exact ⟨hhead, fun hfailure => absurd hnone hfailure⟩
      | tail _ hrun => exact ih (fun command hcommand => h command (List.mem_cons_of_mem _ hcommand)) _ run hrun

/-- Nested writes attach children to the parent their own command wrote, or to one the caller may write, and a
batch with a failing child leaves nothing. -/
theorem nestedSafe_runBatch {commands : List (String × JsonValue)} {user : SessionUser}
    (h : ∀ command ∈ commands, WellBehaved ctx command) (db : EntityTables) (commits : Bool) :
    ctx.NestedSafe db user (ctx.runBatch db commands user commits) := by
  unfold runBatch
  by_cases hperCommand : (commands.any fun (type, _) => ctx.isPerCommandHandler type) = true
  · rw [if_pos hperCommand]
    split
    · refine ⟨?_, ?_, ?_⟩ <;> intro run hrun <;> cases List.mem_singleton.1 hrun
      · exact nofun
      · exact fun _ => rfl
      · exact nofun
    · exact ⟨nofun, nofun, nofun⟩
  · rw [if_neg hperCommand]
    have hruns (run : NestedRun) (hrun : run ∈ (ctx.runCommands user commands db).runs) :=
      runSafe_runCommands h db run hrun
    have hcommand (run : NestedRun) (hrun : run ∈ (ctx.runCommands user commands db).runs) := (hruns run hrun).1
    dsimp only
    split
    · exact ⟨fun run hrun => (hcommand run hrun).attached, fun run hrun => (hcommand run hrun).whole,
        fun _ _ _ _ _ _ => rfl⟩
    · next hnone =>
      split
      · refine ⟨fun run hrun => (hcommand run hrun).attached, fun run hrun => (hcommand run hrun).whole, ?_⟩
        intro run hrun child hchild error herror
        exact absurd hnone ((hruns run hrun).2 ((hcommand run hrun).failed child hchild error herror))
      · exact ⟨fun run hrun => (hcommand run hrun).attached, fun run hrun => (hcommand run hrun).whole,
          fun _ _ _ _ _ _ => rfl⟩

/-! ## An app with accounts and their notes -/

def textValue (text : String) : StoredValue := storedString text

def accountRow (tenantId : String) : FieldRow := [("id", textValue "a-1"), ("tenantId", textValue tenantId)]

/-- The row as a handler returns it. -/
def accountData (tenantId : String) : StoredValue :=
  ⟨.object [("id", .prim (.string "a-1")), ("tenantId", .prim (.string tenantId))], by
    refine .object (by simp) fun key v hv => ?_
    simp only [List.mem_cons, Prod.mk.injEq, List.not_mem_nil, or_false] at hv
    rcases hv with ⟨-, rfl⟩ | ⟨-, rfl⟩ <;> exact .prim _⟩

def setRow (tables : EntityTables) (entityName id : String) (row : FieldRow) : EntityTables :=
  fun e i => if e = entityName ∧ i = id then some row else tables e i

/-- `note:create`, which writes the payload's account. -/
def createNote (tables : EntityTables) (payload : JsonValue) : HandlerResult × EntityTables :=
  match payload.property "accountId" with
  | .prim p =>
    (.success (textValue "n-1"),
      setRow tables "note" "n-1" [("id", textValue "n-1"), ("accountId", ⟨.prim p, .prim p⟩)])
  | _ => (.failure (.validationError [⟨"accountId", "invalid_type", "errors.validation.invalid_type"⟩]), tables)

/-- Accounts have a list of notes; how an account is created is left open. -/
def crm (systemScoped : Bool) (createAccount : EntityTables → SessionUser → HandlerResult × EntityTables) :
    NestedContext Unit where
  getHandlerEntity type :=
    if type = "crm:write:account:create" then some "account"
    else if type = "crm:write:note:create" then some "note"
    else none
  getEntity _ := some ⟨[], none⟩
  getRelations entityName := if entityName = "account" then [("notes", .hasMany "note" "accountId" true)] else []
  isHandlerSystemScoped _ := systemScoped
  isPerCommandHandler _ := false
  hasTenantColumn _ := true
  executeWrite tables type payload user :=
    if type = "crm:write:account:create" then createAccount tables user else createNote tables payload
  codeUnitAt _ _ := .undefined
  collates _ _ := true

/-- An account with one empty note. -/
def accountWithNote : String × JsonValue :=
  ("crm:write:account:create", .object [("notes", .array [.object []])])

def notesOfAccount : NestedSpec := ⟨"notes", "crm:write:note:create", "accountId", [.object []]⟩

def agent : SessionUser := ⟨"u-1", "tenant-a", ["user"], fun _ => .scalar .undefined⟩

theorem extractNestedSpecs_accountWithNote (systemScoped : Bool)
    (createAccount : EntityTables → SessionUser → HandlerResult × EntityTables) :
    (crm systemScoped createAccount).extractNestedSpecs accountWithNote.1 accountWithNote.2 =
      .ok (some ⟨[], [notesOfAccount], []⟩) := by
  have hparse : parseQn "crm:write:account:create" = some ⟨"crm", "write", ["account".toList, "create".toList]⟩ := by
    decide +kernel
  have hcreate : (⟨"crm", "write", ["account".toList, "create".toList]⟩ : ParsedQn).isCreate = true := by
    decide +kernel
  have hsub : qn "crm" "write" ("note" ++ ":create") = some "crm:write:note:create" := by decide +kernel
  have hhandler : (crm systemScoped createAccount).getHandlerEntity "crm:write:account:create" = some "account" := by
    simp [crm]
  have hrelations : (crm systemScoped createAccount).getRelations "account" =
      [("notes", .hasMany "note" "accountId" true)] := by
    simp [crm]
  have hentry : nestedEntry ⟨"crm", "write", ["account".toList, "create".toList]⟩ [("notes", .array [.object []])]
      ("notes", .hasMany "note" "accountId" true) = .ok (some (.expanded notesOfAccount)) := by
    simp only [nestedEntry, List.lookup_cons, beq_self_eq_true, hsub]
    rfl
  simp only [extractNestedSpecs, accountWithNote, hparse, hhandler, hcreate, hrelations, List.mapM_cons, hentry,
    List.mapM_nil]
  rfl

theorem keepsForeignKey_createNote (systemScoped : Bool)
    (createAccount : EntityTables → SessionUser → HandlerResult × EntityTables) :
    (crm systemScoped createAccount).KeepsForeignKey "crm:write:note:create" "accountId" := by
  intro tables payload user entityName id row hentity hafter hbefore
  simp [call, crm, createNote] at hafter
  split at hafter
  · next p hp =>
    simp only [setRow] at hafter
    split at hafter
    · cases hafter
      rw [hp]
      rfl
    · exact absurd hafter hbefore
  · exact absurd hafter hbefore

/-- The create of the note. -/
def noteOf (ctx : NestedContext Unit) (tables : EntityTables) : ChildCall :=
  ⟨notesOfAccount, .object [], ctx.call tables "crm:write:note:create" (ctx.subPayload (.object []) "accountId" "a-1")
    agent⟩

/-- A create that answers with an account attaches the note to it, unless the guard objects. -/
theorem executeNestedWrite_accountWithNote {systemScoped : Bool}
    {createAccount : EntityTables → SessionUser → HandlerResult × EntityTables} {tables after : EntityTables}
    {tenantId : String} (h : createAccount tables agent = (.success (accountData tenantId), after))
    (hguard : (crm systemScoped createAccount).rejectUnverifiedParent after accountWithNote.1
      (accountRow tenantId) "a-1" agent = none) :
    (crm systemScoped createAccount).executeNestedWrite tables accountWithNote.1 accountWithNote.2 agent =
      ⟨none, [notesOfAccount],
        some ⟨"crm:write:account:create", .object [], tables, .success (accountData tenantId), after⟩,
        [noteOf (crm systemScoped createAccount) after],
        (noteOf (crm systemScoped createAccount) after).call.after⟩ := by
  have hcall : (crm systemScoped createAccount).call tables accountWithNote.1 (.object []) agent =
      ⟨"crm:write:account:create", .object [], tables, .success (accountData tenantId), after⟩ := by
    simp [call, crm, accountWithNote, h]
  have hissues : collectNestedForeignKeyIssues ⟨[], [notesOfAccount], []⟩ = [] := by decide
  have hunwrap : unwrapSaveRow (accountData tenantId) = some (accountData tenantId) := rfl
  have hid : identifiedRow (accountData tenantId) = some (accountRow tenantId, "a-1") := rfl
  have hnote : (noteOf (crm systemScoped createAccount) after).call.result = .success (textValue "n-1") := by
    simp only [noteOf, call, crm]
    rw [if_neg (by decide)]
    rfl
  have hspecs : (crm systemScoped createAccount).writeNestedSpecs "a-1" agent [notesOfAccount] after =
      ⟨none, [noteOf (crm systemScoped createAccount) after],
        (noteOf (crm systemScoped createAccount) after).call.after⟩ := by
    simp only [noteOf] at hnote ⊢
    simp only [writeNestedSpecs, notesOfAccount, writeNestedChildren, hnote]
    rfl
  rw [executeNestedWrite, extractNestedSpecs_accountWithNote]
  simp only [hissues, hcall, hunwrap, hid, hguard, hspecs]

/-- An account of the caller's tenant. -/
def createOwnAccount (tables : EntityTables) (user : SessionUser) : HandlerResult × EntityTables :=
  (.success (accountData user.tenantId), setRow tables "account" "a-1" (accountRow user.tenantId))

def noTables : EntityTables := fun _ _ => none

theorem nestedSafe_runBatch_ownAccount :
    (crm false createOwnAccount).NestedSafe noTables agent
      ((crm false createOwnAccount).runBatch noTables [accountWithNote] agent true) := by
  refine nestedSafe_runBatch (fun command hcommand => ?_) noTables true
  cases List.mem_singleton.1 hcommand
  refine ⟨.inl rfl, fun tables payload user data hresult => .inr ?_, fun nested hnested spec hspec => ?_⟩
  · have hdata : HandlerResult.success (accountData user.tenantId) = .success data := by
      simpa [call, crm, accountWithNote, createOwnAccount] using hresult
    cases hdata
    refine ⟨accountRow user.tenantId, .bareRow rfl nofun, fun id hid => ?_⟩
    cases hid
    refine ⟨"account", accountRow user.tenantId, by simp [crm, accountWithNote], ?_, fun _ _ _ => rfl⟩
    simp [call, crm, accountWithNote, createOwnAccount, setRow]
  · rw [extractNestedSpecs_accountWithNote] at hnested
    cases hnested
    cases List.mem_singleton.1 hspec
    exact keepsForeignKey_createNote false createOwnAccount

/-- An account that exists is returned, whosever it is. -/
def createOrFindAccount (tables : EntityTables) (user : SessionUser) : HandlerResult × EntityTables :=
  match tables "account" "a-1" with
  | none => createOwnAccount tables user
  | some row =>
    match row.get "tenantId" with
    | .prim (.string tenantId) => (.success (accountData tenantId), tables)
    | _ => (.failure (.handlerError "conflict"), tables)

/-- The account is another tenant's. -/
def foreignAccount : EntityTables := setRow noTables "account" "a-1" (accountRow "tenant-b")

/-- A system-scoped create may find a parent of another tenant: the guard leaves the tenant to it. -/
theorem not_nestedSafe_systemScoped :
    ¬ (crm true createOrFindAccount).NestedSafe foreignAccount agent
      ((crm true createOrFindAccount).runBatch foreignAccount [accountWithNote] agent true) := by
  intro h
  have hrun := @executeNestedWrite_accountWithNote true createOrFindAccount foreignAccount foreignAccount "tenant-b"
    rfl rfl
  have hruns : ((crm true createOrFindAccount).runBatch foreignAccount [accountWithNote] agent true).runs =
      [(crm true createOrFindAccount).executeNestedWrite foreignAccount accountWithNote.1 accountWithNote.2 agent] := by
    simp only [runBatch, List.any_cons, List.any_nil, Bool.or_false, runCommands, hrun]
    rfl
  obtain ⟨call, id, hparent, hown, hattached⟩ := h.attached _ (by rw [hruns]; exact List.mem_singleton_self _)
    (noteOf (crm true createOrFindAccount) foreignAccount) (by rw [hrun]; exact List.mem_singleton_self _)
  rw [hrun] at hparent
  cases hparent
  have hid : "a-1" = id := by
    have hpayload := hattached.payload
    simp only [noteOf, call, notesOfAccount, property_subPayload] at hpayload
    cases hpayload
    rfl
  subst hid
  rcases hown with ⟨entityName, row, -, hafter, hbefore⟩ | ⟨entityName, row, hentity, hafter, htenant, -⟩
  · -- the call wrote nothing
    exact hbefore hafter
  · obtain rfl : "account" = entityName := by simpa [crm] using hentity
    obtain rfl : accountRow "tenant-b" = row := by simpa [foreignAccount, setRow] using hafter
    exact absurd (htenant rfl) (by decide)

end NestedContext

end Kumiko
