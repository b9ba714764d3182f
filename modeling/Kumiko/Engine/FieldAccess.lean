import Kumiko.Engine.FieldValues
import Mathlib.Algebra.Ring.Nat

/-!
# Field-level write access

The dispatcher checks the roles that may write a field before any row is loaded (`checkWriteFieldRoles`); the
executor evaluates ownership on the row before and after the write (`userCanWriteFieldRow`). What gets through
both alters only what its user may write (`fieldWrites_protected_iff`), with one gap: on a create a field called
`changes` is taken for the submitted changes.
-/

namespace Kumiko

variable {D : Type*}

/-! ## Access entries -/

/-- Reference: `FieldAccess.write`, a map or the older list of roles. -/
inductive AccessEntry (D : Type*) where
  | map (accessMap : OwnershipMap D)
  | roles (roles : List String)

/-- Reference: `normalizeAccessEntry`. -/
def normalizeAccessEntry : Option (AccessEntry D) → Option (OwnershipMap D)
  | none => none
  | some (.roles []) => none
  | some (.roles roles) => some (roles.map fun role => (role, .all))
  | some (.map accessMap) => some accessMap

def OwnershipRule.isAll : OwnershipRule D → Bool
  | .all => true
  | _ => false

/-- A rule on both rows; authored SQL grants nothing in memory. -/
def OwnershipRule.acceptsBoth (rule : OwnershipRule D) (user : SessionUser) (oldRow newRow : String → JsValue) :
    Bool :=
  match rule with
  | .all => true
  | .whereRule _ => false
  | .fromRule rule => matchesRule rule user oldRow && matchesRule rule user newRow

/-- One role must accept both rows. Reference: `userCanWriteFieldRow`. -/
def userCanWriteFieldRow (user : SessionUser) (accessMap : Option (OwnershipMap D))
    (oldRow newRow : String → JsValue) : Bool :=
  match accessMap with
  | none => true
  | some accessMap =>
    accessMap.isEmpty || user.roles.any fun role =>
      match accessMap.lookup role with
      | none => false
      | some rule => rule.acceptsBoth user oldRow newRow

/-- Reference: `userCanCreateFieldRow`. -/
def userCanCreateFieldRow (user : SessionUser) (accessMap : Option (OwnershipMap D)) (newRow : String → JsValue) :
    Bool :=
  userCanWriteFieldRow user accessMap newRow newRow

/-- Reference: `userHasWriteRole`. -/
def userHasWriteRole (user : SessionUser) (accessMap : OwnershipMap D) : Bool :=
  user.roles.any fun role => (accessMap.lookup role).isSome

/-! ## Entities -/

/-- A value of the language or of a JSON column: no object has a key twice. -/
abbrev StoredValue := { v : JsonValue // v.Valid }

/-- A payload, a set of changes or a row. -/
abbrev FieldRow := List (String × StoredValue)

namespace FieldRow

/-- The value of a key. -/
def get (row : FieldRow) (key : String) : JsonValue :=
  match row.lookup key with
  | none => .undefined
  | some value => value.1

/-- How ownership rules see the row. -/
def toJs (row : FieldRow) (key : String) : JsValue := (row.get key).toJs

/-- `{ ...row, ...changes }` -/
def spread (row changes : FieldRow) : FieldRow := changes ++ row

end FieldRow

/-- Reference: `EmbeddedSubFieldDef`. -/
structure SubFieldDef (D : Type*) where
  write : Option (AccessEntry D)

/-- The types of fields the checks tell apart. -/
inductive GuardedType (D : Type*) where
  | text (writeOnly : Bool)
  | embedded (schema : List (String × SubFieldDef D))
  | other

/-- Reference: `FieldDefinition`, with the default `scalarDefault` finds. -/
structure FieldDef (D : Type*) where
  type : GuardedType D
  write : Option (AccessEntry D)
  default : Option StoredValue

/-- Reference: `EntityDefinition`. -/
structure GuardedEntity (D : Type*) where
  fields : List (String × FieldDef D)
  write : Option (OwnershipMap D)

/-! ## The checks -/

/-- The first key that has a write map without a role of the user. Reference: `checkWriteFieldRoles`. -/
def checkWriteFieldRoles (entity : GuardedEntity D) (keys : List String) (user : SessionUser) : Option String :=
  keys.find? fun key =>
    match entity.fields.lookup key with
    | none => false
    | some field =>
      match normalizeAccessEntry field.write with
      | none => false
      | some accessMap => !userHasWriteRole user accessMap

/-- A row of an embedded field. -/
abbrev EmbeddedRow := List (String × JsonValue)

/-- Reference: `isRecord`. -/
def isRecord : JsonValue → Option EmbeddedRow
  | .object entries => some entries
  | _ => none

/-- Reference: `embeddedRows`. -/
def embeddedRows : JsonValue → List (Option EmbeddedRow)
  | .array items => items.map isRecord
  | .object entries => [some entries]
  | _ => []

/-- The row at an index, where the value has one. -/
def embeddedRowAt (value : JsonValue) (i : ℕ) : Option EmbeddedRow := ((embeddedRows value)[i]?).join

/-- `row?.[key]` -/
def embeddedGet (row : Option EmbeddedRow) (key : String) : JsonValue :=
  match row.bind (·.lookup key) with
  | none => .undefined
  | some value => value

/-- How ownership rules see an embedded row. -/
def embeddedJs (row : EmbeddedRow) (key : String) : JsValue := (embeddedGet (some row) key).toJs

section

variable (collates : String → String → Bool)

/-- Whether the rule of a sub-field denies the pair of rows at an index. -/
def deniesRow (user : SessionUser) (accessMap : OwnershipMap D) (subKey : String) (newValue oldValue : JsonValue)
    (i : ℕ) : Bool :=
  let newRow := embeddedRowAt newValue i
  let oldRow := embeddedRowAt oldValue i
  if isUnchangedValue collates (embeddedGet newRow subKey) (embeddedGet oldRow subKey) then false
  else
    let rowAfter := (newRow <|> oldRow).getD []
    !userCanWriteFieldRow user (some accessMap) (embeddedJs (oldRow.getD rowAfter)) (embeddedJs rowAfter)

/-- Rows are paired by index; a removed or added row that carries a value counts as written. Reference:
`deniedEmbeddedSubField`. -/
def deniedEmbeddedSubField (schema : List (String × SubFieldDef D)) (newValue oldValue : JsonValue)
    (user : SessionUser) : Option String :=
  schema.findSome? fun (subKey, subField) =>
    match normalizeAccessEntry subField.write with
    | none => none
    | some accessMap =>
      if (List.range (max (embeddedRows newValue).length (embeddedRows oldValue).length)).any
          (deniesRow collates user accessMap subKey newValue oldValue) then
        some subKey
      else none

/-- The ownership check of one submitted field. A map without an ownership rule is the dispatcher's. -/
def deniedField (entity : GuardedEntity D) (user : SessionUser) (oldRow : Option FieldRow) (rowContext : FieldRow)
    (checkEmbeddedSubFields : Bool) (key : String) (value : JsonValue) : Option String :=
  match entity.fields.lookup key with
  | none => none
  | some field =>
    let deniedSubField :=
      match field.type with
      | .embedded schema =>
        if checkEmbeddedSubFields then
          deniedEmbeddedSubField collates schema value ((oldRow.getD []).get key) user
        else none
      | _ => none
    match deniedSubField with
    | some subKey => some (key ++ "." ++ subKey)
    | none =>
      match normalizeAccessEntry field.write with
      | none => none
      | some accessMap =>
        if accessMap.all (·.2.isAll) then none
        else
          let newRow := (oldRow.getD []).spread rowContext
          let effectiveOld := oldRow.getD newRow
          if userCanWriteFieldRow user (some accessMap) effectiveOld.toJs newRow.toJs then none else some key

/-- Reference: `checkWriteFieldOwnership`. -/
def checkWriteFieldOwnership (entity : GuardedEntity D) (submittedChanges : FieldRow) (user : SessionUser)
    (oldRow : Option FieldRow) (rowContext : FieldRow) (checkEmbeddedSubFields : Bool) : Option String :=
  submittedChanges.findSome? fun (key, value) =>
    deniedField collates entity user oldRow rowContext checkEmbeddedSubFields key value.1

end

/-! ## Creates and updates -/

/-- Why a write fails. -/
inductive FieldWriteFailure where
  /-- `AccessDeniedError` with `details.reason` `field_access_denied`. -/
  | fieldAccessDenied (field : String)
  /-- `UnprocessableError("ownership_denied")` with its details. -/
  | ownershipDenied (scope action : String) (field : Option String)
  | invalidFileRef
  | preSaveFailed
  /-- A step behind the ownership checks. -/
  | notSettled

/-- What the write finds around it: the file a handle resolves to, the preSave hooks on submitted changes,
previous row and `isNew`, and whether the steps behind the ownership checks go through. -/
structure WriteEnv where
  resolveFileHandle : String → StoredValue → Option StoredValue
  preSave : FieldRow → FieldRow → Bool → Option FieldRow
  settles : Option FieldRow → FieldRow → Bool

/-- A command of the generated handlers, behind its schema; the executor has loaded the row of an update. -/
inductive EntityWrite where
  | create (payload : FieldRow)
  | update (changes previous : FieldRow)

/-- What a write that went through has stored. -/
structure WrittenRow where
  /-- What the executor takes for submitted. -/
  submitted : FieldRow
  previous : Option FieldRow
  stored : FieldRow

/-- The number of UTF-16 code units of a string. -/
def codeUnitCount (s : String) : ℕ := (s.toList.map fun c => if c.toNat < 0x10000 then 1 else 2).sum

/-- `Object.keys`, for a value. -/
def objectKeys : JsonValue → List String
  | .object entries => entries.map Prod.fst
  | .array items => (List.range items.length).map toString
  | .prim (.string s) => (List.range (codeUnitCount s)).map toString
  | _ => []

/-- The keys the dispatcher checks: those of `payload.changes`, or of the payload where there is none.
Reference: `rejectDeniedFieldRoles`. -/
def roleGateKeys (payload : FieldRow) : List String :=
  match payload.get "changes" with
  | .undefined => payload.map Prod.fst
  | .null => payload.map Prod.fst
  | fieldsToCheck => objectKeys fieldsToCheck

section

variable (entity : GuardedEntity D)

def GuardedEntity.isWriteOnly (key : String) : Bool :=
  match entity.fields.lookup key with
  | some field =>
    match field.type with
    | .text writeOnly => writeOnly
    | _ => false
  | none => false

def JsonValue.isEmptyString : JsonValue → Bool
  | .prim (.string s) => s == ""
  | _ => false

/-- Reference: `dropEmptyWriteOnlyValues`. -/
def dropEmptyWriteOnlyValues (values : FieldRow) : FieldRow :=
  values.filter fun (key, value) => !(entity.isWriteOnly key && value.1.isEmptyString)

def JsonValue.isUndefined : JsonValue → Bool
  | .undefined => true
  | _ => false

/-- Reference: `applyDefaults`. -/
def applyDefaults (payload : FieldRow) : FieldRow :=
  payload.filter (fun (_, value) => !value.1.isUndefined) ++ entity.fields.filterMap fun (name, field) =>
    if (payload.get name).isUndefined then field.default.map fun value => (name, value) else none

/-- Reference: `resolveFileHandles`. -/
def resolveFileHandles (env : WriteEnv) (values : FieldRow) : Option FieldRow :=
  values.mapM fun (key, value) => (env.resolveFileHandle key value).map fun resolved => (key, resolved)

/-- What the executor's `create` takes for submitted. Reference: `payloadWithoutId`. -/
def createSubmission (env : WriteEnv) (payload : FieldRow) : Option FieldRow :=
  resolveFileHandles env (dropEmptyWriteOnlyValues entity (payload.filter fun entry => entry.1 != "id"))

/-- What the executor's `update` takes for submitted. Reference: `submittedChanges`. -/
def updateSubmission (env : WriteEnv) (changes : FieldRow) : Option FieldRow :=
  resolveFileHandles env (dropEmptyWriteOnlyValues entity changes)

/-- Reference: `ownershipSubject`. -/
def ownershipSubject (user : SessionUser) (streamTenantId : Option String) : SessionUser :=
  match streamTenantId with
  | none => user
  | some tenantId => { user with tenantId := tenantId }

variable (collates : String → String → Bool) (env : WriteEnv) (user : SessionUser) (streamTenantId : Option String)

/-- Reference: `createOwnershipFailure`. -/
def createOwnershipFailure (payloadWithoutId data : FieldRow) : Option FieldWriteFailure :=
  let subject := ownershipSubject user streamTenantId
  if !userCanCreateFieldRow subject entity.write data.toJs then some (.ownershipDenied "entity" "create" none)
  else
    (checkWriteFieldOwnership collates entity (applyDefaults entity payloadWithoutId) subject none data true).map
      fun field => .ownershipDenied "field" "create" (some field)

/-- Reference: `updateOwnershipFailure`. -/
def updateOwnershipFailure (submittedChanges previous changes : FieldRow) : Option FieldWriteFailure :=
  let subject := ownershipSubject user streamTenantId
  if !userCanWriteFieldRow subject entity.write previous.toJs (previous.spread changes).toJs then
    some (.ownershipDenied "entity" "update" none)
  else
    (checkWriteFieldOwnership collates entity submittedChanges subject (some previous) changes true).map
      fun field => .ownershipDenied "field" "update" (some field)

/-- The executor's `create`, behind the dispatcher's gate. -/
def createEntity (payload : FieldRow) : Except FieldWriteFailure WrittenRow :=
  match createSubmission entity env payload with
  | none => .error .invalidFileRef
  | some payloadWithoutId =>
    match env.preSave (applyDefaults entity payloadWithoutId) [] true with
    | none => .error .preSaveFailed
    | some data =>
      match createOwnershipFailure entity collates user streamTenantId payloadWithoutId data with
      | some failure => .error failure
      | none => if env.settles none data then .ok ⟨payloadWithoutId, none, data⟩ else .error .notSettled

/-- The executor's `update`, behind the dispatcher's gate. -/
def updateEntity (changes previous : FieldRow) : Except FieldWriteFailure WrittenRow :=
  match updateSubmission entity env changes with
  | none => .error .invalidFileRef
  | some submittedChanges =>
    match env.preSave submittedChanges previous false with
    | none => .error .preSaveFailed
    | some saved =>
      match updateOwnershipFailure entity collates user streamTenantId submittedChanges previous saved with
      | some failure => .error failure
      | none =>
        if env.settles (some previous) saved then .ok ⟨submittedChanges, some previous, previous.spread saved⟩
        else .error .notSettled

/-- The dispatcher's role gate on the payload of the command, then the executor. -/
def executeEntityWrite : EntityWrite → Except FieldWriteFailure WrittenRow
  | .create payload =>
    match checkWriteFieldRoles entity (roleGateKeys payload) user with
    | some field => .error (.fieldAccessDenied field)
    | none => createEntity entity collates env user streamTenantId payload
  | .update changes previous =>
    -- the payload is `{ id, version, changes }`, and its `changes` an object by the schema
    match checkWriteFieldRoles entity (changes.map Prod.fst) user with
    | some field => .error (.fieldAccessDenied field)
    | none => updateEntity entity collates env user streamTenantId changes previous

end

/-! ## What a write may alter -/

/-- The entry grants the user a write from the old row to the new one: it is public, or one role's rule accepts
both. -/
def GrantsBoth (user : SessionUser) (entry : Option (AccessEntry D)) (oldRow newRow : String → JsValue) : Prop :=
  ∀ accessMap, normalizeAccessEntry entry = some accessMap → accessMap = [] ∨
    ∃ role ∈ user.roles, ∃ rule, accessMap.lookup role = some rule ∧ rule.acceptsBoth user oldRow newRow = true

namespace WrittenRow

/-- The submission changes what is stored under a key. -/
def Alters (w : WrittenRow) (key : String) : Prop :=
  key ∈ w.submitted.map Prod.fst ∧ ¬ (w.submitted.get key).SameStored ((w.previous.getD []).get key)

/-- The embedded row at an index before and after, as the rules see them: a row that was added or removed
stands for both. -/
def embeddedAfter (w : WrittenRow) (key : String) (i : ℕ) : EmbeddedRow :=
  (embeddedRowAt (w.submitted.get key) i <|> embeddedRowAt ((w.previous.getD []).get key) i).getD []

def embeddedBefore (w : WrittenRow) (key : String) (i : ℕ) : EmbeddedRow :=
  (embeddedRowAt ((w.previous.getD []).get key) i).getD (w.embeddedAfter key i)

/-- The submission changes what is stored under a sub-field of the embedded row at an index. -/
def AltersSub (w : WrittenRow) (key subKey : String) (i : ℕ) : Prop :=
  key ∈ w.submitted.map Prod.fst ∧
    ¬ (embeddedGet (embeddedRowAt (w.submitted.get key) i) subKey).SameStored
      (embeddedGet (embeddedRowAt ((w.previous.getD []).get key) i) subKey)

/-- Every field and sub-field that the submission alters is the user's to write, by one role for the row
before and the row after; a create has only the row after. -/
structure Protected (entity : GuardedEntity D) (user : SessionUser) (w : WrittenRow) : Prop where
  field : ∀ key field, entity.fields.lookup key = some field → w.Alters key →
    GrantsBoth user field.write (w.previous.getD w.stored).toJs w.stored.toJs
  subField : ∀ key field schema, entity.fields.lookup key = some field → field.type = .embedded schema →
    ∀ subKey subField, (subKey, subField) ∈ schema → ∀ i, w.AltersSub key subKey i →
      GrantsBoth user subField.write (embeddedJs (w.embeddedBefore key i)) (embeddedJs (w.embeddedAfter key i))

end WrittenRow

/-- The dispatcher's gate sees the fields a create sets: the payload has no field `changes` in front of them,
or every field whose map is left to the gate grants one of the user's roles. -/
def RoleGateCovers (entity : GuardedEntity D) (env : WriteEnv) (user : SessionUser) : EntityWrite → Prop
  | .update _ _ => True
  | .create payload => roleGateKeys payload = payload.map Prod.fst ∨
      ∀ submitted, createSubmission entity env payload = some submitted →
        ∀ key field accessMap, entity.fields.lookup key = some field →
          normalizeAccessEntry field.write = some accessMap → accessMap ≠ [] →
          accessMap.all (·.2.isAll) = true → ¬ (submitted.get key).SameStored .undefined →
          userHasWriteRole user accessMap = true

/-! ## What the checks say -/

section

variable {user : SessionUser} {entity : GuardedEntity D} {collates : String → String → Bool} {key : String}
  {value : JsonValue} {accessMap : OwnershipMap D} {oldRow newRow : String → JsValue}
  {entry : Option (AccessEntry D)}

theorem userCanWriteFieldRow_iff :
    userCanWriteFieldRow user (some accessMap) oldRow newRow = true ↔ accessMap = [] ∨
      ∃ role ∈ user.roles, ∃ rule, accessMap.lookup role = some rule ∧
        rule.acceptsBoth user oldRow newRow = true := by
  simp only [userCanWriteFieldRow, Bool.or_eq_true, List.isEmpty_iff, List.any_eq_true]
  refine or_congr_right (exists_congr fun role => and_congr_right fun _ => ?_)
  cases accessMap.lookup role with
  | none => simp
  | some rule => simp

theorem grantsBoth_of_userCanWriteFieldRow
    (h : userCanWriteFieldRow user (normalizeAccessEntry entry) oldRow newRow = true) :
    GrantsBoth user entry oldRow newRow := by
  intro accessMap hmap
  rw [hmap] at h
  exact userCanWriteFieldRow_iff.1 h

theorem mem_of_lookup {β : Type*} {entries : List (String × β)} {value : β}
    (h : entries.lookup key = some value) : (key, value) ∈ entries := by
  induction entries with
  | nil => cases h
  | cons head entries ih =>
    obtain ⟨k, v⟩ := head
    rw [List.lookup_cons] at h
    split at h
    · next hk => cases h; rw [eq_of_beq hk]; exact List.mem_cons_self
    · exact List.mem_cons_of_mem _ (ih h)

/-- Where every rule is `all`, a role is enough. -/
theorem grantsBoth_of_role (hmap : normalizeAccessEntry entry = some accessMap)
    (hall : accessMap.all (·.2.isAll) = true) (hrole : userHasWriteRole user accessMap = true) :
    GrantsBoth user entry oldRow newRow := by
  intro accessMap' hmap'
  rw [hmap] at hmap'
  cases hmap'
  right
  obtain ⟨role, hmem, hsome⟩ := List.any_eq_true.1 hrole
  obtain ⟨rule, hrule⟩ := Option.isSome_iff_exists.1 hsome
  refine ⟨role, hmem, rule, hrule, ?_⟩
  have hisAll : rule.isAll = true := List.all_eq_true.1 hall (role, rule) (mem_of_lookup hrule)
  cases rule with
  | all => rfl
  | fromRule _ | whereRule _ => cases hisAll

/-- What a map of `all` rules grants, it grants to a role of the user. -/
theorem userHasWriteRole_of_grantsBoth (hmap : normalizeAccessEntry entry = some accessMap)
    (hne : accessMap ≠ []) (h : GrantsBoth user entry oldRow newRow) : userHasWriteRole user accessMap = true := by
  obtain hnil | ⟨role, hmem, rule, hrule, -⟩ := h accessMap hmap
  · exact absurd hnil hne
  · exact List.any_eq_true.2 ⟨role, hmem, by rw [hrule]; rfl⟩

theorem checkWriteFieldRoles_none {keys : List String} (h : checkWriteFieldRoles entity keys user = none)
    (hkey : key ∈ keys) {field : FieldDef D} (hfield : entity.fields.lookup key = some field)
    (hmap : normalizeAccessEntry field.write = some accessMap) :
    userHasWriteRole user accessMap = true := by
  have hnot := List.find?_eq_none.1 h key hkey
  simpa [hfield, hmap] using hnot

theorem valid_of_isRecord {row : EmbeddedRow} (h : value.Valid)
    (hrow : isRecord value = some row) : (JsonValue.object row).Valid := by
  cases value with
  | object entries => cases hrow; exact h
  | undefined | null | prim _ | array _ => cases hrow

theorem embeddedRowAt_valid (h : value.Valid) {i : ℕ} {row : EmbeddedRow}
    (hrow : embeddedRowAt value i = some row) : (JsonValue.object row).Valid := by
  have hget : (embeddedRows value)[i]? = some (some row) := Option.join_eq_some_iff.1 hrow
  cases value with
  | array items =>
    rw [embeddedRows, List.getElem?_map] at hget
    obtain ⟨item, hitem, hrecord⟩ := Option.map_eq_some_iff.1 hget
    cases h with
    | array hitems => exact valid_of_isRecord (hitems item (List.mem_of_getElem? hitem)) hrecord
  | object entries =>
    have hmem := List.mem_of_getElem? hget
    rw [embeddedRows, List.mem_singleton] at hmem
    cases hmem
    exact h
  | undefined | null | prim _ => simp [embeddedRows] at hget

theorem embeddedGet_valid (h : value.Valid) (i : ℕ) (subKey : String) :
    (embeddedGet (embeddedRowAt value i) subKey).Valid := by
  unfold embeddedGet
  split
  · exact .undefined
  · next sub hsub =>
    obtain ⟨row, hrow, hlookup⟩ := Option.bind_eq_some_iff.1 hsub
    cases embeddedRowAt_valid h hrow with
    | object _ hentries => exact hentries subKey sub (mem_of_lookup hlookup)

/-- Behind the last row of both values nothing is stored. -/
theorem embeddedRowAt_none {i : ℕ} (h : (embeddedRows value).length ≤ i) :
    embeddedRowAt value i = none := by
  rw [embeddedRowAt, List.getElem?_eq_none h]
  rfl

/-- A sub-field check that denies nothing grants every sub-field it alters. -/
theorem deniedEmbeddedSubField_none {schema : List (String × SubFieldDef D)} {newValue oldValue : JsonValue}
    (hnew : newValue.Valid) (hold : oldValue.Valid)
    (h : deniedEmbeddedSubField collates schema newValue oldValue user = none)
    {subKey : String} {subField : SubFieldDef D} (hmem : (subKey, subField) ∈ schema) {i : ℕ}
    (halters : ¬ (embeddedGet (embeddedRowAt newValue i) subKey).SameStored
      (embeddedGet (embeddedRowAt oldValue i) subKey)) :
    GrantsBoth user subField.write
      (embeddedJs ((embeddedRowAt oldValue i).getD ((embeddedRowAt newValue i <|> embeddedRowAt oldValue i).getD [])))
      (embeddedJs ((embeddedRowAt newValue i <|> embeddedRowAt oldValue i).getD [])) := by
  intro accessMap hmap
  have hnone := List.findSome?_eq_none_iff.1 h _ hmem
  simp only [hmap] at hnone
  split at hnone
  · cases hnone
  · next hany =>
    have hrange : i < max (embeddedRows newValue).length (embeddedRows oldValue).length := by
      by_contra hge
      rw [embeddedRowAt_none (by omega), embeddedRowAt_none (by omega)] at halters
      exact halters fun _ => rfl
    have hdenies : deniesRow collates user accessMap subKey newValue oldValue i = false := by
      by_contra hdenied
      exact hany (List.any_eq_true.2 ⟨i, List.mem_range.2 hrange, by simpa using hdenied⟩)
    simp only [deniesRow] at hdenies
    split at hdenies
    · next hunchanged =>
      exact absurd (sameStored_of_isUnchangedValue (embeddedGet_valid hnew i subKey)
        (embeddedGet_valid hold i subKey) hunchanged) halters
    · exact userCanWriteFieldRow_iff.1 (by simpa using hdenies)

variable {oldRow : Option FieldRow} {rowContext : FieldRow}

theorem FieldRow.get_valid (row : FieldRow) (key : String) : (row.get key).Valid := by
  unfold FieldRow.get
  split
  · exact .undefined
  · next value _ => exact value.2

/-- A field that the ownership check lets through has no denied sub-field. -/
theorem deniedField_none_subField {field : FieldDef D} {schema : List (String × SubFieldDef D)}
    (h : deniedField collates entity user oldRow rowContext true key value = none)
    (hfield : entity.fields.lookup key = some field) (htype : field.type = .embedded schema) :
    deniedEmbeddedSubField collates schema value ((oldRow.getD []).get key) user = none := by
  simp only [deniedField, hfield, htype, if_true] at h
  split at h
  · cases h
  · next hnone => exact hnone

/-- A field that the ownership check lets through is granted on both rows, unless its map is left to the
dispatcher. -/
theorem deniedField_none_grants {field : FieldDef D}
    (h : deniedField collates entity user oldRow rowContext true key value = none)
    (hfield : entity.fields.lookup key = some field) (hmap : normalizeAccessEntry field.write = some accessMap)
    (hall : accessMap.all (·.2.isAll) = false) :
    GrantsBoth user field.write (oldRow.getD ((oldRow.getD []).spread rowContext)).toJs
      ((oldRow.getD []).spread rowContext).toJs := by
  simp only [deniedField, hfield, hmap, hall, Bool.false_eq_true, if_false] at h
  split at h
  · cases h
  · split at h
    · next hcan =>
      refine grantsBoth_of_userCanWriteFieldRow ?_
      rw [hmap]
      exact hcan
    · cases h

/-! ## What is submitted -/

theorem FieldRow.get_of_lookup {row : FieldRow} {value : StoredValue}
    (h : row.lookup key = some value) : row.get key = value.1 := by
  rw [FieldRow.get, h]

/-- A key of the row has a first entry. -/
theorem lookup_of_key_mem {β : Type*} {entries : List (String × β)}
    (h : key ∈ entries.map Prod.fst) : ∃ value, entries.lookup key = some value := by
  induction entries with
  | nil => cases h
  | cons head entries ih =>
    obtain ⟨k, v⟩ := head
    rw [List.lookup_cons]
    rcases List.mem_cons.1 h with rfl | h
    · exact ⟨v, by simp⟩
    · split
      · exact ⟨v, rfl⟩
      · exact ih h

theorem resolveFileHandles_keys {env : WriteEnv} {values resolved : FieldRow}
    (h : resolveFileHandles env values = some resolved) : resolved.map Prod.fst = values.map Prod.fst := by
  unfold resolveFileHandles at h
  induction values generalizing resolved with
  | nil => simp at h; rw [h]
  | cons entry values ih =>
    rw [List.mapM_cons] at h
    obtain ⟨head, hhead, h⟩ := Option.bind_eq_some_iff.1 h
    obtain ⟨tail, htail, h⟩ := Option.bind_eq_some_iff.1 h
    obtain ⟨value, -, rfl⟩ := Option.map_eq_some_iff.1 hhead
    cases h
    rw [List.map_cons, List.map_cons, ih htail]

theorem key_mem_of_updateSubmission {env : WriteEnv} {changes submitted : FieldRow}
    (h : updateSubmission entity env changes = some submitted)
    (hkey : key ∈ submitted.map Prod.fst) : key ∈ changes.map Prod.fst := by
  rw [resolveFileHandles_keys h] at hkey
  exact List.map_subset _ (List.filter_subset_self _) hkey

theorem key_mem_of_createSubmission {env : WriteEnv} {payload submitted : FieldRow}
    (h : createSubmission entity env payload = some submitted)
    (hkey : key ∈ submitted.map Prod.fst) : key ∈ payload.map Prod.fst := by
  rw [resolveFileHandles_keys h] at hkey
  exact List.map_subset _ (List.Subset.trans (List.filter_subset_self _) (List.filter_subset_self _)) hkey

/-- What a create sets stays in front of the defaults. -/
theorem mem_applyDefaults {payload : FieldRow} {value : StoredValue}
    (h : (key, value) ∈ payload) (hset : value.1.isUndefined = false) : (key, value) ∈ applyDefaults entity payload :=
  List.mem_append_left _ (List.mem_filter.2 ⟨h, by simp [hset]⟩)

/-! ## Protected writes -/

variable {env : WriteEnv} {streamTenantId : Option String} {w : WrittenRow}

/-- An update that went through passed the role gate on the submitted keys and the ownership check. -/
theorem update_protected {changes previous : FieldRow}
    (hroles : checkWriteFieldRoles entity (changes.map Prod.fst) user = none)
    (h : updateEntity entity collates env user streamTenantId changes previous = .ok w) :
    w.Protected entity (ownershipSubject user streamTenantId) := by
  unfold updateEntity at h
  cases hsubmitted : updateSubmission entity env changes with
  | none => simp [hsubmitted] at h
  | some submitted =>
    cases hsaved : env.preSave submitted previous false with
    | none => simp [hsubmitted, hsaved] at h
    | some saved =>
      simp only [hsubmitted, hsaved] at h
      split at h
      · cases h
      · next howned =>
        split at h
        · cases h
          have hchecked : checkWriteFieldOwnership collates entity submitted (ownershipSubject user streamTenantId)
              (some previous) saved true = none := by
            simp only [updateOwnershipFailure] at howned
            split at howned
            · cases howned
            · exact Option.map_eq_none_iff.1 howned
          have hentry : ∀ key, key ∈ submitted.map Prod.fst → deniedField collates entity
              (ownershipSubject user streamTenantId) (some previous) saved true key (submitted.get key) = none := by
            intro key hkey
            obtain ⟨value, hvalue⟩ := lookup_of_key_mem hkey
            rw [FieldRow.get_of_lookup hvalue]
            exact List.findSome?_eq_none_iff.1 hchecked _ (mem_of_lookup hvalue)
          refine ⟨fun key field hfield halters => ?_, fun key field schema hfield htype subKey subField hsub i
            halters => ?_⟩
          · intro accessMap hmap
            cases hall : accessMap.all (·.2.isAll) with
            | false => exact deniedField_none_grants (hentry key halters.1) hfield hmap hall accessMap hmap
            | true =>
              have hrole := checkWriteFieldRoles_none hroles (key_mem_of_updateSubmission hsubmitted halters.1)
                hfield hmap
              have hrole' : userHasWriteRole (ownershipSubject user streamTenantId) accessMap = true := by
                cases streamTenantId <;> exact hrole
              exact grantsBoth_of_role hmap hall hrole' accessMap hmap
          · exact deniedEmbeddedSubField_none (FieldRow.get_valid _ _) (FieldRow.get_valid _ _)
              (deniedField_none_subField (hentry key halters.1) hfield htype) hsub halters.2
        · cases h

/-- What a create that went through knows about every field it sets. -/
theorem create_checked {payload : FieldRow}
    (h : createEntity entity collates env user streamTenantId payload = .ok w) :
    createSubmission entity env payload = some w.submitted ∧ w.previous = none ∧
      ∀ key, key ∈ w.submitted.map Prod.fst → (w.submitted.get key).isUndefined = false →
        deniedField collates entity (ownershipSubject user streamTenantId) none w.stored true key
          (w.submitted.get key) = none := by
  unfold createEntity at h
  cases hsubmitted : createSubmission entity env payload with
  | none => simp [hsubmitted] at h
  | some submitted =>
    cases hsaved : env.preSave (applyDefaults entity submitted) [] true with
    | none => simp [hsubmitted, hsaved] at h
    | some data =>
      simp only [hsubmitted, hsaved] at h
      split at h
      · cases h
      · next howned =>
        split at h
        · cases h
          refine ⟨rfl, rfl, fun key hkey hset => ?_⟩
          have hchecked : checkWriteFieldOwnership collates entity (applyDefaults entity submitted)
              (ownershipSubject user streamTenantId) none data true = none := by
            simp only [createOwnershipFailure] at howned
            split at howned
            · cases howned
            · exact Option.map_eq_none_iff.1 howned
          obtain ⟨value, hvalue⟩ := lookup_of_key_mem hkey
          rw [FieldRow.get_of_lookup hvalue] at hset ⊢
          exact List.findSome?_eq_none_iff.1 hchecked _ (mem_applyDefaults (mem_of_lookup hvalue) hset)
        · cases h

theorem isUndefined_of_not_same (h : ¬ value.SameStored .undefined) :
    value.isUndefined = false := by
  cases value with
  | undefined => exact absurd (fun _ => rfl) h
  | null | prim _ | array _ | object _ => rfl

/-- A create alters nothing but what the user may write, exactly where the role gate covers what it sets. -/
theorem create_protected_iff {payload : FieldRow}
    (hroles : checkWriteFieldRoles entity (roleGateKeys payload) user = none)
    (h : createEntity entity collates env user streamTenantId payload = .ok w) :
    w.Protected entity (ownershipSubject user streamTenantId) ↔
      RoleGateCovers entity env user (.create payload) := by
  obtain ⟨hsubmitted, hprevious, hchecked⟩ := create_checked h
  have hold : w.previous.getD [] = [] := by rw [hprevious]; rfl
  have hnew : w.previous.getD w.stored = w.stored := by rw [hprevious]; rfl
  have hspread : FieldRow.spread [] w.stored = w.stored := List.append_nil _
  have hrole_iff : ∀ accessMap : OwnershipMap D,
      userHasWriteRole (ownershipSubject user streamTenantId) accessMap = userHasWriteRole user accessMap := by
    intro accessMap
    cases streamTenantId <;> rfl
  constructor
  · intro hprotected
    right
    intro submitted hsubmitted' key field accessMap hfield hmap hne hall hset
    rw [hsubmitted] at hsubmitted'
    cases hsubmitted'
    have hkey : key ∈ w.submitted.map Prod.fst := by
      by_contra hnot
      have hnone : w.submitted.lookup key = none := by
        rw [List.lookup_eq_none_iff]
        intro entry hentry
        rw [bne_iff_ne]
        rintro rfl
        exact hnot (List.mem_map.2 ⟨entry, hentry, rfl⟩)
      rw [FieldRow.get, hnone] at hset
      exact hset fun _ => rfl
    have halters : w.Alters key := ⟨hkey, by rw [hold]; exact hset⟩
    rw [← hrole_iff]
    exact userHasWriteRole_of_grantsBoth hmap hne (hprotected.field key field hfield halters)
  · intro hcovers
    refine ⟨fun key field hfield halters => ?_, fun key field schema hfield htype subKey subField hsub i
      halters => ?_⟩
    · intro accessMap hmap
      rw [hnew]
      have hset : ¬ (w.submitted.get key).SameStored .undefined := by
        have hdiffers := halters.2
        rw [hold] at hdiffers
        exact hdiffers
      cases hall : accessMap.all (·.2.isAll) with
      | false =>
        have hgrants := deniedField_none_grants (hchecked key halters.1 (isUndefined_of_not_same hset)) hfield hmap hall
        simp only [Option.getD_none, hspread] at hgrants
        exact hgrants accessMap hmap
      | true =>
        by_cases hnil : accessMap = []
        · exact .inl hnil
        · have hrole : userHasWriteRole user accessMap = true := by
            rcases hcovers with hkeys | hcovered
            · refine checkWriteFieldRoles_none hroles ?_ hfield hmap
              rw [hkeys]
              exact key_mem_of_createSubmission hsubmitted halters.1
            · exact hcovered w.submitted hsubmitted key field accessMap hfield hmap hnil hall hset
          rw [← hrole_iff] at hrole
          exact grantsBoth_of_role hmap hall hrole accessMap hmap
    · -- an embedded value that is not set has no row to alter
      have hset : (w.submitted.get key).isUndefined = false := by
        cases hvalue : w.submitted.get key with
        | undefined =>
          have hdiffers := halters.2
          rw [hvalue, hold] at hdiffers
          exact absurd (fun _ => rfl) hdiffers
        | null | prim _ | array _ | object _ => rfl
      have hnone := deniedField_none_subField (hchecked key halters.1 hset) hfield htype
      have hgrants := deniedEmbeddedSubField_none (FieldRow.get_valid _ _) (FieldRow.get_valid _ _) hnone hsub
        (i := i) (by have hdiffers := halters.2; rw [hold] at hdiffers; exact hdiffers)
      simp only [WrittenRow.embeddedBefore, WrittenRow.embeddedAfter, hold]
      exact hgrants

/-- A create or update that succeeds alters only fields and sub-fields that its user may write, exactly where the
dispatcher's role gate sees the fields it sets. -/
theorem fieldWrites_protected_iff {write : EntityWrite}
    (h : executeEntityWrite entity collates env user streamTenantId write = .ok w) :
    w.Protected entity (ownershipSubject user streamTenantId) ↔ RoleGateCovers entity env user write := by
  cases write with
  | create payload =>
    simp only [executeEntityWrite] at h
    split at h
    · cases h
    · next hroles => exact create_protected_iff hroles h
  | update changes previous =>
    simp only [executeEntityWrite] at h
    split at h
    · cases h
    · next hroles => exact iff_of_true (update_protected hroles h) trivial

end

/-- A string as a stored value. -/
def storedString (s : String) : StoredValue := ⟨.prim (.string s), .prim _⟩

/-- A changelog: only an admin writes `reviewer`, anyone the text of `changes`. -/
def changelogEntity : GuardedEntity String where
  fields := [("title", ⟨.text false, none, none⟩), ("reviewer", ⟨.text false, some (.roles ["Admin"]), none⟩),
    ("changes", ⟨.text false, none, none⟩)]
  write := none

/-- No files, no hooks, and every later step goes through. -/
def plainEnv : WriteEnv := ⟨fun _ value => some value, fun changes _ _ => some changes, fun _ _ => true⟩

def changelogEditor : SessionUser := ⟨"u1", "t1", ["Editor"], fun _ => .scalar .undefined⟩

/-- An admin may set the reviewer with the title. -/
theorem fieldWrites_protected_title : ∃ w,
    executeEntityWrite changelogEntity (fun a b => decide (a ≤ b)) plainEnv { changelogEditor with roles := ["Admin"] }
      none (.create [("title", storedString "1.2"), ("reviewer", storedString "u1")]) = .ok w ∧
    w.Protected changelogEntity { changelogEditor with roles := ["Admin"] } := by
  have h : executeEntityWrite changelogEntity (fun a b => decide (a ≤ b)) plainEnv
      { changelogEditor with roles := ["Admin"] } none
      (.create [("title", storedString "1.2"), ("reviewer", storedString "u1")]) =
        .ok ⟨[("title", storedString "1.2"), ("reviewer", storedString "u1")], none,
          [("title", storedString "1.2"), ("reviewer", storedString "u1")]⟩ := rfl
  exact ⟨_, h, (fieldWrites_protected_iff h).2 (.inl rfl)⟩

/-- The text of `changes` hides `reviewer` from the role gate. -/
theorem changelog_reviewer_unprotected : ∃ w,
    executeEntityWrite changelogEntity (fun a b => decide (a ≤ b)) plainEnv changelogEditor none
      (.create [("reviewer", storedString "u1"), ("changes", storedString "fixes")]) = .ok w ∧
    ¬ w.Protected changelogEntity changelogEditor := by
  refine ⟨⟨[("reviewer", storedString "u1"), ("changes", storedString "fixes")], none,
    [("reviewer", storedString "u1"), ("changes", storedString "fixes")]⟩, rfl, fun hprotected => ?_⟩
  have hgrants := hprotected.field "reviewer" _ rfl ⟨by simp, fun hsame => nomatch hsame []⟩ [("Admin", .all)] rfl
  rcases hgrants with hnil | ⟨role, hrole, rule, hrule, -⟩
  · cases hnil
  · rw [List.mem_singleton.1 hrole] at hrule
    cases hrule

end Kumiko
