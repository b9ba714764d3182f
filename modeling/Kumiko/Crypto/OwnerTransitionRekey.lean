import Kumiko.Db.FieldStorage

/-!
# Personal fields follow their owner

`crypto/owner-transition-rekey.ts` with the executor's `create` and `update`. An update that names a new owner
and leaves a personal field out reads the stored value and writes it again under the new owner's key; one that
removes the owner leaves the values under the old key (`not_personal_fields_resolve`).
`personal_fields_follow_owner` holds after every run.
-/

namespace Kumiko

variable {J : Type*} {owner : String}

/-! ## The rekey -/

/-- `userOwned` and not `recordOwned`. Reference: `isPlainUserOwnedField`. -/
def FieldDefinition.plainUserOwned (field : FieldDefinition) : Option UserOwned :=
  if field.recordOwned then none else field.userOwned

/-- The values an update must write again. Reference: `personalFieldsRekeyedOnOwnerTransition`. -/
def personalFieldsRekeyedOnOwnerTransition (entity : EntityDefinition)
    (previous mergedNew submittedChanges : EntityRow J) : EntityRow J := fun name =>
  match (entity.field name).bind (·.plainUserOwned) with
  | none => none
  | some userOwned =>
    if (submittedChanges name).isSome then none
    else
      match nonEmptyString (mergedNew.value userOwned.ownerField) with
      | none => none
      | some nextOwner =>
        if some nextOwner = nonEmptyString (previous.value userOwned.ownerField) then none
        else if isKept (previous.value name) then none
        else some (previous.value name)

/-! ## The executor's writes -/

/-- The executor of a booted entity. The owner of a field is a text or reference field of the entity
(`requireOwnerField`), and the fields do not take the place of the columns every table has. The text
`stableJson` gives for a string is nobody else's among strings, `null` and `undefined`. -/
structure EntityExecutor (J : Type*) extends FieldStorage J where
  isColumn : String → Bool
  field_column : ∀ name, (entity.field name).isSome = true →
    isColumn name = true ∧ name ≠ "id" ∧ name ≠ "tenantId"
  owner_text : ∀ name userOwned, (entity.field name).bind (·.plainUserOwned) = some userOwned →
    (entity.field userOwned.ownerField).map (·.type) = some .other
  stableJson : FieldValue J → Option JsText
  stableJson_text : ∀ s t, stableJson (.text s) = stableJson (.text t) → s = t
  stableJson_absent : ∀ s value, isAbsent value = true → stableJson (.text s) ≠ stableJson value

/-- Reference: `isUnchangedValue`. -/
def EntityExecutor.isUnchangedValue (ex : EntityExecutor J) (a b : FieldValue J) : Bool :=
  ex.stableJson a = ex.stableJson b

/-- The row in its table, and the key store. -/
structure PersonalRow (J : Type*) where
  stored : EntityRow J
  keys : KeyStore

inductive WriteError where
  | storage (error : StorageError)
  | invalidTenant
  | presaveHookFailed
  | refused

/-- The row restricted to the columns of the table. -/
def EntityExecutor.columns (ex : EntityExecutor J) (row : EntityRow J) : EntityRow J :=
  fun name => if ex.isColumn name then row name else none

/-- A create as it reaches the encryption: its data after the defaults and the hook, and the tenant of its
event. -/
structure CreateCall (J : Type*) where
  data : EntityRow J
  aggregateId : String
  userTenantId : String
  streamTenantId : Option String
  eventTenantId : String
  draws : StorageDraws

/-- `{ ...flatCreateData, id: aggregateId }` -/
def CreateCall.keying (call : CreateCall J) : Keying J where
  source := Function.update call.data "id" (some (.text (.of call.aggregateId)))
  tenantId := call.streamTenantId.getD call.userTenantId

/-- The tenant of the new row; a payload may name it. Reference: the `created` case of `applyEntityEvent`. -/
def createdTenant (payload : EntityRow J) (eventTenantId : String) : Option String :=
  match payload.value "tenantId" with
  | .undefined => some eventTenantId
  | value => nonEmptyString value

/-- Reference: `create`. -/
def EntityExecutor.create (ex : EntityExecutor J) (call : CreateCall J) (keys : KeyStore) :
    Except WriteError (PersonalRow J) :=
  match ex.encryptForStorage call.data call.userTenantId
      ⟨none, some call.keying.source, call.streamTenantId, none, none⟩ call.draws keys with
  | .error e => .error (.storage e)
  | .ok (flatData, keys) =>
    match createdTenant flatData call.eventTenantId with
    | none => .error .invalidTenant
    | some tenantId =>
      .ok ⟨Function.update (Function.update (ex.columns flatData) "tenantId" (some (.text (.of tenantId)))) "id"
        (some (.text (.of call.aggregateId))), keys⟩

/-- An update: `preSave` fails where the hook does or its output breaks the schema, and `allowed` are the
ownership, lock, select and version guards. -/
structure UpdateCall (J : Type*) where
  changes : EntityRow J
  preSave : EntityRow J → EntityRow J → Option (EntityRow J)
  allowed : EntityRow J → EntityRow J → Bool
  skipUnchanged : Bool
  userTenantId : String
  streamTenantId : Option String
  onErasedSubject : Option ErasedSubjectHandling
  draws : StorageDraws
  previousDraws : StorageDraws

/-- The changes that are not resubmissions. -/
def EntityExecutor.submittedChanges (ex : EntityExecutor J) (skipUnchanged : Bool)
    (previous changes : EntityRow J) : EntityRow J := fun name =>
  (changes name).filter fun value => !(skipUnchanged && ex.isUnchangedValue value (previous.value name))

/-- Reference: `changesToPersist`. -/
def EntityExecutor.changesToPersist (ex : EntityExecutor J) (previous mergedNew submitted : EntityRow J) :
    EntityRow J :=
  submitted.overlay (personalFieldsRekeyedOnOwnerTransition ex.entity previous mergedNew submitted)

/-- `Object.keys`, of which the encryption only asks for fields of the entity. -/
def EntityExecutor.keysOf (ex : EntityExecutor J) (row : EntityRow J) : List String :=
  (ex.entity.fields.map Prod.fst).filter fun name => (row name).isSome

/-- The changes of an update, and what it adds to them. -/
def EntityExecutor.persisted (ex : EntityExecutor J) (call : UpdateCall J) (previous changes : EntityRow J) :
    EntityRow J :=
  ex.changesToPersist previous (previous.overlay changes)
    (ex.submittedChanges call.skipUnchanged previous changes)

/-- Reference: `encryptUpdatePayload`, and the `updated` case of `applyEntityEvent`. -/
def EntityExecutor.persistUpdate (ex : EntityExecutor J) (call : UpdateCall J) (previous changes : EntityRow J)
    (row : PersonalRow J) : Except WriteError (PersonalRow J) :=
  let mergedNew := previous.overlay changes
  let submitted := ex.submittedChanges call.skipUnchanged previous changes
  let toPersist := ex.persisted call previous changes
  match ex.encryptForStorage toPersist call.userTenantId
      ⟨some (ex.keysOf toPersist), some mergedNew, call.streamTenantId, none, call.onErasedSubject⟩ call.draws
      row.keys with
  | .error e => .error (.storage e)
  | .ok (flatChanges, keys) =>
    -- the event also carries the previous row, encrypted again
    match ex.encryptForStorage previous call.userTenantId
        ⟨none, none, call.streamTenantId, some submitted, call.onErasedSubject⟩ call.previousDraws keys with
    | .error e => .error (.storage e)
    | .ok (_, keys) => .ok ⟨row.stored.overlay (ex.columns flatChanges), keys⟩

/-- What an update resolves the subjects from. -/
def UpdateCall.keying (call : UpdateCall J) (previous changes : EntityRow J) : Keying J where
  source := previous.overlay changes
  tenantId := call.streamTenantId.getD call.userTenantId

/-- Reference: `update`. -/
def EntityExecutor.update (ex : EntityExecutor J) (call : UpdateCall J) (row : PersonalRow J) :
    Except WriteError (PersonalRow J) :=
  match ex.decryptForRead row.keys row.stored with
  | .error e => .error (.storage e)
  | .ok previous =>
    match call.preSave call.changes previous with
    | none => .error .presaveHookFailed
    | some changes =>
      if call.allowed previous (previous.overlay changes) then ex.persistUpdate call previous changes row
      else .error .refused

/-! ## Runs -/

/-- A field that names the owner of another. -/
def EntityExecutor.IsOwner (ex : EntityExecutor J) (owner : String) : Prop :=
  ∃ name userOwned, (ex.entity.field name).bind (·.plainUserOwned) = some userOwned ∧
    userOwned.ownerField = owner

/-- The values of a write: the owner fields have the type their schema gives them, and no personal value is
one that the encryption takes for a ciphertext or for the sentinel of an erased value. -/
structure EntityExecutor.Accepts (ex : EntityExecutor J) (changes : EntityRow J) : Prop where
  owners : ∀ owner, ex.IsOwner owner → TextOrAbsent (changes.value owner)
  personal : ∀ name ∈ collectPiiEncryptedFields ex.entity, ∀ value, changes name = some value →
    isAbsent value = true ∨ ex.Plain name value

/-- The runs of creates and updates of a row, with what each write resolved the subjects from, newest first.
Other rows' writes, and the writes that fail on the way, leave keys in the store. -/
inductive PersonalRun (ex : EntityExecutor J) : List (Keying J) → PersonalRow J → Prop
  | created {call : CreateCall J} {keys : KeyStore} {row : PersonalRow J} : NoTombstone keys →
      ex.Accepts call.data → ex.create call keys = .ok row → PersonalRun ex [call.keying] row
  | updated {history : List (Keying J)} {row row' : PersonalRow J} {call : UpdateCall J}
      {previous changes : EntityRow J} : PersonalRun ex history row →
      ex.decryptForRead row.keys row.stored = .ok previous →
      call.preSave call.changes previous = some changes → ex.Accepts changes →
      ex.update call row = .ok row' →
      PersonalRun ex (call.keying previous changes :: history) row'
  | keysAdded {history : List (Keying J)} {row : PersonalRow J} {keys : KeyStore} : PersonalRun ex history row →
      StoreExt row.keys keys → PersonalRun ex history ⟨row.stored, keys⟩

/-- The owner after the last write. -/
def currentOwner (history : List (Keying J)) (ownerField : String) : Option String :=
  history.head?.bind fun keying => nonEmptyString (keying.source.value ownerField)

/-- The last owner the row has had. -/
def lastOwner (history : List (Keying J)) (ownerField : String) : Option String :=
  history.findSome? fun keying => nonEmptyString (keying.source.value ownerField)

/-! ## One write -/

section

variable {ex : EntityExecutor J} {history : List (Keying J)} {row row' : PersonalRow J}
  {previous changes : EntityRow J} {name : String} {call : UpdateCall J}

theorem EntityExecutor.owner_type (h : ex.IsOwner owner) :
    (ex.entity.field owner).map (·.type) = some .other := by
  obtain ⟨name, userOwned, hname, rfl⟩ := h
  exact ex.owner_text name userOwned hname

theorem EntityExecutor.column_of_type {type : FieldType} (h : (ex.entity.field name).map (·.type) = some type) :
    ex.isColumn name = true ∧ name ≠ "id" ∧ name ≠ "tenantId" := by
  refine ex.field_column name ?_
  cases hfield : ex.entity.field name with
  | none => simp [hfield] at h
  | some _ => rfl

theorem EntityExecutor.column_of_mem (h : name ∈ collectPiiEncryptedFields ex.entity) :
    ex.isColumn name = true ∧ name ≠ "id" ∧ name ≠ "tenantId" := by
  obtain ⟨field, hfield, -⟩ := exists_field_of_mem h
  exact ex.field_column name (by rw [hfield]; rfl)

/-- The stored value of a field that a write of the run put there, and what it was. -/
structure EntityExecutor.Holds (ex : EntityExecutor J) (keys : KeyStore) (keying : Keying J) (name : String)
    (value stored : FieldValue J) : Prop where
  storedAs : ex.StoredAs keying keys name value stored
  plain : name ∈ collectPiiEncryptedFields ex.entity → isAbsent value = true ∨ ex.Plain name value

theorem EntityExecutor.Holds.ext {keys keys' : KeyStore} {keying : Keying J}
    {value stored : FieldValue J} (h : ex.Holds keys keying name value stored) (hext : StoreExt keys keys') :
    ex.Holds keys' keying name value stored :=
  ⟨h.storedAs.ext hext, h.plain⟩

/-- The owner column agrees with the row of the last write. -/
def EntityExecutor.OwnerInStep (ex : EntityExecutor J) (owner : Option String) (ownerField : String)
    (row : PersonalRow J) : Prop :=
  match row.stored ownerField with
  | none => owner = none
  | some stored => ∃ keying value, ex.Holds row.keys keying ownerField value stored ∧ TextOrAbsent value ∧
      nonEmptyString value = owner

/-- The row has had no other owner since the write. -/
def Follows (history : List (Keying J)) (keying : Keying J) (ownerField : String) : Prop :=
  match nonEmptyString (keying.source.value ownerField) with
  | none => currentOwner history ownerField = none
  | some owner => lastOwner history ownerField = some owner

/-- What every run maintains. -/
structure PersonalInv (ex : EntityExecutor J) (history : List (Keying J)) (row : PersonalRow J) : Prop where
  keys : NoTombstone row.keys
  owners : ∀ owner, ex.IsOwner owner → ex.OwnerInStep (currentOwner history owner) owner row
  fields : ∀ name ∈ collectPiiEncryptedFields ex.entity, ∀ stored, row.stored name = some stored →
    ∃ keying ∈ history, ∃ value, ex.Holds row.keys keying name value stored ∧
      ∀ userOwned, (ex.entity.field name).bind (·.plainUserOwned) = some userOwned →
        isAbsent value = false → Follows history keying userOwned.ownerField

/-- The writer of a field follows itself. -/
theorem follows_head (keying : Keying J) (history : List (Keying J)) (ownerField : String) :
    Follows (keying :: history) keying ownerField := by
  unfold Follows
  split
  · rename_i hnone
    exact hnone
  · rename_i owner howner
    rw [lastOwner, List.findSome?_cons, howner]

theorem lastOwner_of_currentOwner {ownerField owner : String}
    (h : currentOwner history ownerField = some owner) : lastOwner history ownerField = some owner := by
  cases history with
  | nil => cases h
  | cons keying history =>
    rw [lastOwner, List.findSome?_cons, show nonEmptyString (keying.source.value ownerField) = some owner from h]

/-- A field that is not written again still follows, when the row gets no other owner. -/
theorem Follows.cons {keying next : Keying J} {ownerField : String} (h : Follows history keying ownerField)
    (hnext : nonEmptyString (next.source.value ownerField) = none ∨
      nonEmptyString (next.source.value ownerField) = currentOwner history ownerField) :
    Follows (next :: history) keying ownerField := by
  have hcurrent : currentOwner (next :: history) ownerField = nonEmptyString (next.source.value ownerField) := rfl
  unfold Follows at h ⊢
  split
  · rename_i hnone
    rw [hnone] at h
    rw [hcurrent]
    rcases hnext with hnext | hnext
    · exact hnext
    · rw [hnext, h]
  · rename_i owner howner
    rw [howner] at h
    cases hn : nonEmptyString (next.source.value ownerField) with
    | none => rw [lastOwner, List.findSome?_cons, hn]; exact h
    | some other =>
      rcases hnext with hnext | hnext
      · rw [hnext] at hn
        cases hn
      · have hlast := lastOwner_of_currentOwner (hnext.symm.trans hn)
        have hsame : owner = other := Option.some.inj (h.symm.trans hlast)
        rw [lastOwner, List.findSome?_cons, hn, hsame]

/-- A reader sees the owner of the last write. -/
theorem PersonalInv.read_owner (h : PersonalInv ex history row) {read : EntityRow J}
    (hread : ex.decryptForRead row.keys row.stored = .ok read) (howner : ex.IsOwner owner) :
    TextOrAbsent (read.value owner) ∧ nonEmptyString (read.value owner) = currentOwner history owner := by
  have htype := EntityExecutor.owner_type howner
  obtain ⟨hnone, hsome⟩ := FieldStorage.decryptForRead_spec hread
    (mem_collectPiiEncryptedFields_of_text htype)
  have hstep := h.owners owner howner
  unfold EntityExecutor.OwnerInStep at hstep
  split at hstep
  · rename_i hstored
    rw [EntityRow.value, hnone hstored, hstep]
    exact ⟨.inl rfl, rfl⟩
  · rename_i stored hstored
    obtain ⟨keying, value, hholds, htext, hvalue⟩ := hstep
    obtain ⟨back, hback, hreads⟩ := hsome stored hstored keying value hholds.storedAs hholds.plain
    obtain ⟨hback', heq⟩ := hreads.text htype htext
    rw [EntityRow.value, hback, ← hvalue]
    exact ⟨hback', heq⟩

/-- What a reader gets of a personal field is plain, or absent. -/
theorem PersonalInv.read_plain (h : PersonalInv ex history row) {read : EntityRow J}
    (hread : ex.decryptForRead row.keys row.stored = .ok read) (hname : name ∈ collectPiiEncryptedFields ex.entity) :
    ∀ value, read name = some value → isAbsent value = true ∨ ex.Plain name value := by
  intro value hvalue
  obtain ⟨hnone, hsome⟩ := FieldStorage.decryptForRead_spec hread fun _ => hname
  cases hstored : row.stored name with
  | none =>
    rw [hnone hstored] at hvalue
    cases hvalue
  | some stored =>
    obtain ⟨keying, -, written, hholds, -⟩ := h.fields name hname stored hstored
    obtain ⟨back, hback, hreads⟩ := hsome stored hstored keying written hholds.storedAs hholds.plain
    obtain rfl : back = value := Option.some.inj (hback.symm.trans hvalue)
    rcases hholds.plain hname with habsent | hplain
    · refine .inl ?_
      rw [FieldStorage.ReadsBack, if_pos habsent] at hreads
      rw [hreads, habsent]
    · exact .inr (hplain.readsBack hreads)

/-- An accepted create stores its data. -/
theorem EntityExecutor.create_ok {call : CreateCall J} {keys : KeyStore} (hkeys : NoTombstone keys)
    (h : ex.create call keys = .ok row) :
    StoreExt keys row.keys ∧ ∀ name, ex.isColumn name = true → name ≠ "id" → name ≠ "tenantId" →
      (call.data name = none → row.stored name = none) ∧ ∀ value, call.data name = some value →
        ∃ stored, row.stored name = some stored ∧ ex.StoredAs call.keying row.keys name value stored := by
  have hcovers : ex.Covers none call.data := fun _ h => nomatch h
  unfold EntityExecutor.create at h
  split at h
  · cases h
  · rename_i flat keys' hflat
    obtain ⟨hnone, hsome⟩ := FieldStorage.encryptForStorage_spec hcovers rfl rfl hkeys hflat
    have hext := FieldStorage.encryptForStorage_ext hcovers hkeys hflat
    split at h
    · cases h
    · obtain rfl := Except.ok.inj h
      refine ⟨hext, fun name hcolumn hid htenant => ?_⟩
      simp only [Function.update_of_ne hid, Function.update_of_ne htenant, columns, hcolumn, if_true]
      exact ⟨hnone name, hsome name⟩

theorem PersonalInv.created {call : CreateCall J} {keys : KeyStore} (hkeys : NoTombstone keys)
    (haccepts : ex.Accepts call.data) (h : ex.create call keys = .ok row) :
    PersonalInv ex [call.keying] row := by
  obtain ⟨hext, hstored⟩ := EntityExecutor.create_ok hkeys h
  refine ⟨hext.noTombstone hkeys, fun owner howner => ?_, fun name hname stored hvalue => ?_⟩
  · obtain ⟨hcolumn, hid, htenant⟩ := EntityExecutor.column_of_type (EntityExecutor.owner_type howner)
    obtain ⟨hnone, hsome⟩ := hstored owner hcolumn hid htenant
    have hcurrent : currentOwner [call.keying] owner = nonEmptyString (call.data.value owner) := by
      simp only [currentOwner, List.head?_cons, Option.bind_some, CreateCall.keying, EntityRow.value,
        Function.update_of_ne hid]
    have htext := haccepts.owners owner howner
    unfold EntityExecutor.OwnerInStep
    rw [hcurrent]
    cases hdata : call.data owner with
    | none =>
      rw [hnone hdata, EntityRow.value, hdata]
      rfl
    | some value =>
      obtain ⟨stored, hrow, hstoredAs⟩ := hsome value hdata
      rw [hrow]
      rw [EntityRow.value, hdata] at htext ⊢
      exact ⟨call.keying, value, ⟨hstoredAs, fun hpersonal => haccepts.personal owner hpersonal value hdata⟩,
        htext, rfl⟩
  · obtain ⟨hcolumn, hid, htenant⟩ := EntityExecutor.column_of_mem hname
    obtain ⟨hnone, hsome⟩ := hstored name hcolumn hid htenant
    cases hdata : call.data name with
    | none =>
      rw [hnone hdata] at hvalue
      cases hvalue
    | some value =>
      obtain ⟨stored', hrow, hstoredAs⟩ := hsome value hdata
      obtain rfl : stored' = stored := Option.some.inj (hrow.symm.trans hvalue)
      refine ⟨call.keying, List.mem_singleton_self _, value,
        ⟨hstoredAs, fun _ => haccepts.personal name hname value hdata⟩, ?_⟩
      intro userOwned _ _
      exact follows_head _ _ _

/-- The keys of the fields a row has are all the encryption asks for. -/
theorem EntityExecutor.covers_keysOf (ex : EntityExecutor J) (row : EntityRow J) : ex.Covers (some (ex.keysOf row)) row := by
  intro keys hkeys name hfield hpresent
  obtain rfl := Option.some.inj hkeys
  refine List.mem_filter.mpr ⟨?_, by rwa [Option.isSome_iff_ne_none]⟩
  unfold EntityDefinition.field at hfield
  obtain ⟨field, hlookup⟩ := Option.isSome_iff_exists.mp hfield
  obtain ⟨front, back, heq, -⟩ := List.lookup_eq_some_iff.mp hlookup
  exact List.mem_map.mpr ⟨(name, field), by rw [heq]; simp, rfl⟩

/-- An accepted update stores what it persists, and leaves the rest of the row. -/
theorem EntityExecutor.persistUpdate_ok
    (hkeys : NoTombstone row.keys) (h : ex.persistUpdate call previous changes row = .ok row') :
    StoreExt row.keys row'.keys ∧ ∀ name, ex.isColumn name = true →
      (ex.persisted call previous changes name = none → row'.stored name = row.stored name) ∧
        ∀ value, ex.persisted call previous changes name = some value →
          ∃ stored, row'.stored name = some stored ∧ ex.StoredAs (call.keying previous changes) row'.keys name
            value stored := by
  unfold EntityExecutor.persistUpdate at h
  dsimp only at h
  have hcovers := ex.covers_keysOf (ex.persisted call previous changes)
  split at h
  · cases h
  · rename_i flat keys₁ hflat
    have hext₁ := FieldStorage.encryptForStorage_ext hcovers hkeys hflat
    obtain ⟨hnone, hsome⟩ := FieldStorage.encryptForStorage_spec hcovers rfl rfl hkeys hflat
    split at h
    · cases h
    · rename_i previous' keys₂ hprevious
      have hall : ex.Covers none previous := fun _ h => nomatch h
      have hext₂ := FieldStorage.encryptForStorage_ext hall (hext₁.noTombstone hkeys) hprevious
      obtain rfl := Except.ok.inj h
      refine ⟨hext₁.trans hext₂, fun name hcolumn => ⟨fun hname => ?_, fun value hvalue => ?_⟩⟩
      · simp only [EntityRow.overlay, columns, hcolumn, if_true, hnone name hname, Option.none_or]
      · obtain ⟨stored, hstored, hstoredAs⟩ := hsome name value hvalue
        refine ⟨stored, ?_, hstoredAs.ext hext₂⟩
        simp only [EntityRow.overlay, columns, hcolumn, if_true, hstored, Option.some_or]

/-- A rekeyed value is one a reader saw. -/
theorem rekeyed_eq {entity : EntityDefinition} {previous mergedNew submitted : EntityRow J} {value : FieldValue J}
    (h : personalFieldsRekeyedOnOwnerTransition entity previous mergedNew submitted name = some value) :
    submitted name = none ∧ previous name = some value ∧ isKept value = false := by
  unfold personalFieldsRekeyedOnOwnerTransition at h
  split at h
  · cases h
  · split at h
    · cases h
    · rename_i hsubmitted
      split at h
      · cases h
      · split at h
        · cases h
        · split at h
          · cases h
          · rename_i hkept
            obtain rfl := Option.some.inj h
            refine ⟨by simpa using hsubmitted, ?_, by simpa using hkept⟩
            unfold EntityRow.value at hkept ⊢
            cases hprevious : previous name with
            | none => simp [hprevious, isKept, isAbsent] at hkept
            | some _ => rfl

/-- A field that is not written again was submitted, had nothing to rekey or gets no other owner. -/
theorem not_rekeyed {entity : EntityDefinition} {previous mergedNew submitted : EntityRow J}
    {userOwned : UserOwned} (hfield : (entity.field name).bind (·.plainUserOwned) = some userOwned)
    (hsubmitted : submitted name = none)
    (h : personalFieldsRekeyedOnOwnerTransition entity previous mergedNew submitted name = none) :
    isKept (previous.value name) = true ∨ nonEmptyString (mergedNew.value userOwned.ownerField) = none ∨
      nonEmptyString (mergedNew.value userOwned.ownerField) =
        nonEmptyString (previous.value userOwned.ownerField) := by
  unfold personalFieldsRekeyedOnOwnerTransition at h
  rw [hfield] at h
  simp only [hsubmitted, Option.isSome_none, Bool.false_eq_true, if_false] at h
  split at h
  · rename_i hnone
    exact .inr (.inl hnone)
  · rename_i nextOwner hnext
    split at h
    · rename_i hsame
      exact .inr (.inr (hnext.trans hsame))
    · split at h
      · rename_i hkept
        exact .inl hkept
      · cases h

/-- An owner field that is not written keeps its owner. -/
theorem EntityExecutor.owner_of_not_submitted (hprevious : TextOrAbsent (previous.value owner))
    (hchanges : TextOrAbsent (changes.value owner))
    (h : ex.submittedChanges call.skipUnchanged previous changes owner = none) :
    nonEmptyString ((previous.overlay changes).value owner) = nonEmptyString (previous.value owner) := by
  unfold EntityExecutor.submittedChanges at h
  cases hchange : changes owner with
  | none => simp only [EntityRow.value, EntityRow.overlay, hchange, Option.none_or]
  | some value =>
    rw [EntityRow.value, hchange, Option.getD_some] at hchanges
    rw [hchange] at h
    have hunchanged : ex.stableJson value = ex.stableJson (previous.value owner) := by
      have hboth : call.skipUnchanged = true ∧ ex.isUnchangedValue value (previous.value owner) = true := by
        simpa [Option.filter] using h
      simpa [isUnchangedValue] using hboth.2
    have hvalue : (previous.overlay changes).value owner = value := by
      simp only [EntityRow.value, EntityRow.overlay, hchange, Option.some_or, Option.getD_some]
    rw [hvalue]
    -- an unchanged text is the same text, and an absent value names nobody
    have hnobody : ∀ {v : FieldValue J}, isAbsent v = true → nonEmptyString v = none := by
      intro v hv
      cases v <;> first | rfl | cases hv
    rcases hchanges with habsent | ⟨s, rfl⟩
    · rcases hprevious with hprevious | ⟨t, ht⟩
      · rw [hnobody habsent, hnobody hprevious]
      · rw [ht] at hunchanged
        exact (ex.stableJson_absent t value habsent hunchanged.symm).elim
    · rcases hprevious with hprevious | ⟨t, ht⟩
      · exact (ex.stableJson_absent s _ hprevious hunchanged).elim
      · rw [ht] at hunchanged ⊢
        rw [ex.stableJson_text s t hunchanged]

/-- A persisted value was in the changes, or is one a reader saw of a field they leave out. -/
theorem EntityExecutor.persisted_some
    {value : FieldValue J} (h : ex.persisted call previous changes name = some value) :
    changes name = some value ∨ (ex.submittedChanges call.skipUnchanged previous changes name = none ∧
      previous name = some value ∧ isKept value = false) := by
  unfold EntityExecutor.persisted EntityExecutor.changesToPersist EntityRow.overlay at h
  rcases Option.or_eq_some_iff.mp h with hrekeyed | ⟨-, hsubmitted⟩
  · exact .inr (rekeyed_eq hrekeyed)
  · exact .inl (Option.filter_eq_some_iff.mp hsubmitted).1

theorem EntityExecutor.persisted_none (h : ex.persisted call previous changes name = none) :
    ex.submittedChanges call.skipUnchanged previous changes name = none ∧
      personalFieldsRekeyedOnOwnerTransition ex.entity previous (previous.overlay changes)
        (ex.submittedChanges call.skipUnchanged previous changes) name = none := by
  unfold EntityExecutor.persisted EntityExecutor.changesToPersist at h
  unfold EntityRow.overlay at h
  exact (Option.or_eq_none_iff.mp h).symm

/-- The owner column after an update. -/
theorem PersonalInv.updated_owner (hinv : PersonalInv ex history row)
    (hread : ex.decryptForRead row.keys row.stored = .ok previous)
    (haccepts : ex.Accepts changes) (h : ex.persistUpdate call previous changes row = .ok row')
    (howner : ex.IsOwner owner) :
    ex.OwnerInStep (nonEmptyString ((previous.overlay changes).value owner)) owner row' := by
  obtain ⟨hext, hstored⟩ := EntityExecutor.persistUpdate_ok hinv.keys h
  obtain ⟨hkept, hwritten⟩ := hstored owner (EntityExecutor.column_of_type (EntityExecutor.owner_type howner)).1
  obtain ⟨htext, hcurrent⟩ := hinv.read_owner hread howner
  have hsame (hnot : ex.submittedChanges call.skipUnchanged previous changes owner = none) :
      nonEmptyString ((previous.overlay changes).value owner) = nonEmptyString (previous.value owner) :=
    EntityExecutor.owner_of_not_submitted htext (haccepts.owners owner howner) hnot
  unfold EntityExecutor.OwnerInStep
  cases hpersisted : ex.persisted call previous changes owner with
  | none =>
    rw [hkept hpersisted, hsame (EntityExecutor.persisted_none hpersisted).1, hcurrent]
    have hstep := hinv.owners owner howner
    unfold EntityExecutor.OwnerInStep at hstep
    cases hold : row.stored owner with
    | none =>
      rw [hold] at hstep
      exact hstep
    | some stored =>
      rw [hold] at hstep
      obtain ⟨keying, value, hholds, hvalue⟩ := hstep
      exact ⟨keying, value, hholds.ext hext, hvalue⟩
  | some value =>
    obtain ⟨stored, hnew, hstoredAs⟩ := hwritten value hpersisted
    rw [hnew]
    rcases EntityExecutor.persisted_some hpersisted with hchange | ⟨hnot, hprevious, -⟩
    · have hvalue : (previous.overlay changes).value owner = value := by
        simp only [EntityRow.value, EntityRow.overlay, hchange, Option.some_or, Option.getD_some]
      have htyped := haccepts.owners owner howner
      rw [EntityRow.value, hchange, Option.getD_some] at htyped
      exact ⟨_, value, ⟨hstoredAs, fun hpersonal => haccepts.personal owner hpersonal value hchange⟩, htyped,
        by rw [hvalue]⟩
    · have hvalue : previous.value owner = value := by rw [EntityRow.value, hprevious, Option.getD_some]
      rw [hvalue] at htext
      exact ⟨_, value, ⟨hstoredAs, fun hpersonal => hinv.read_plain hread hpersonal value hprevious⟩, htext,
        by rw [hsame hnot, hvalue]⟩

/-- A personal field after an update. -/
theorem PersonalInv.updated_field (hinv : PersonalInv ex history row)
    (hread : ex.decryptForRead row.keys row.stored = .ok previous)
    (haccepts : ex.Accepts changes) (h : ex.persistUpdate call previous changes row = .ok row')
    (hname : name ∈ collectPiiEncryptedFields ex.entity) {stored : FieldValue J}
    (hvalue : row'.stored name = some stored) :
    ∃ keying ∈ call.keying previous changes :: history, ∃ value, ex.Holds row'.keys keying name value stored ∧
      ∀ userOwned, (ex.entity.field name).bind (·.plainUserOwned) = some userOwned → isAbsent value = false →
        Follows (call.keying previous changes :: history) keying userOwned.ownerField := by
  obtain ⟨hext, hstored⟩ := EntityExecutor.persistUpdate_ok hinv.keys h
  obtain ⟨hkept, hwritten⟩ := hstored name (EntityExecutor.column_of_mem hname).1
  cases hpersisted : ex.persisted call previous changes name with
  | some value =>
    obtain ⟨stored', hnew, hstoredAs⟩ := hwritten value hpersisted
    obtain rfl : stored' = stored := Option.some.inj (hnew.symm.trans hvalue)
    refine ⟨_, List.mem_cons_self, value, ⟨hstoredAs, fun _ => ?_⟩, fun userOwned _ _ => follows_head _ _ _⟩
    rcases EntityExecutor.persisted_some hpersisted with hchange | ⟨-, hprevious, -⟩
    · exact haccepts.personal name hname value hchange
    · exact hinv.read_plain hread hname value hprevious
  | none =>
    rw [hkept hpersisted] at hvalue
    obtain ⟨keying, hmem, value, hholds, hfollows⟩ := hinv.fields name hname stored hvalue
    refine ⟨keying, List.mem_cons_of_mem _ hmem, value, hholds.ext hext, fun userOwned huser hpresent => ?_⟩
    have howner : ex.IsOwner userOwned.ownerField := ⟨name, userOwned, huser, rfl⟩
    refine (hfollows userOwned huser hpresent).cons ?_
    obtain ⟨hnot, hrekey⟩ := EntityExecutor.persisted_none hpersisted
    rcases not_rekeyed huser hnot hrekey with hskipped | hnobody | hsame
    · -- what a reader sees of the field is plain, so the rekey would not have skipped it
      obtain ⟨back, hback, hreads⟩ := (FieldStorage.decryptForRead_spec hread fun _ => hname).2 stored hvalue
        keying value hholds.storedAs hholds.plain
      rw [EntityRow.value, hback, Option.getD_some] at hskipped
      rcases hholds.plain hname with habsent | hplain
      · rw [habsent] at hpresent
        cases hpresent
      · rw [(hplain.readsBack hreads).not_kept] at hskipped
        cases hskipped
    · exact .inl hnobody
    · exact .inr (hsame.trans (hinv.read_owner hread howner).2)

/-- Every run keeps the invariant. -/
theorem PersonalRun.inv (h : PersonalRun ex history row) : PersonalInv ex history row := by
  induction h with
  | created hkeys haccepts hcreate => exact .created hkeys haccepts hcreate
  | updated _ hread hsave haccepts hupdate ih =>
    unfold EntityExecutor.update at hupdate
    simp only [hread, hsave] at hupdate
    split at hupdate
    · obtain ⟨hext, -⟩ := EntityExecutor.persistUpdate_ok ih.keys hupdate
      exact ⟨hext.noTombstone ih.keys, fun owner howner => ih.updated_owner hread haccepts hupdate howner,
        fun name hname stored hvalue => ih.updated_field hread haccepts hupdate hname hvalue⟩
    · cases hupdate
  | keysAdded _ hext ih =>
    refine ⟨hext.noTombstone ih.keys, fun owner howner => ?_, fun name hname stored hvalue => ?_⟩
    · have hstep := ih.owners owner howner
      unfold EntityExecutor.OwnerInStep at hstep ⊢
      split at hstep
      · rename_i hnone
        simp only [hnone]
        exact hstep
      · rename_i stored hstored
        simp only [hstored]
        obtain ⟨keying, value, hholds, hvalue⟩ := hstep
        exact ⟨keying, value, hholds.ext hext, hvalue⟩
    · obtain ⟨keying, hmem, value, hholds, hfollows⟩ := ih.fields name hname stored hvalue
      exact ⟨keying, hmem, value, hholds.ext hext, hfollows⟩

/-- A user-owned field belongs to the owner that the row names. -/
theorem EntityExecutor.subject_of_owner {userOwned : UserOwned}
    (hfield : (ex.entity.field name).bind (·.plainUserOwned) = some userOwned) {keying : Keying J}
    (howner : nonEmptyString (keying.source.value userOwned.ownerField) = some owner) :
    ex.subject keying name = .ok (some (.user owner)) := by
  cases hname : ex.entity.field name with
  | none => simp [hname] at hfield
  | some field =>
    rw [hname, Option.bind_some, FieldDefinition.plainUserOwned] at hfield
    cases hrecord : field.recordOwned with
    | true => simp [hrecord] at hfield
    | false =>
      have huser : field.userOwned = some userOwned := by simpa [hrecord] using hfield
      simp [FieldStorage.subject, resolveSubjectForField, hname, hrecord, huser, resolveUserOwnedSubject, ownerOf,
        howner, Except.map]

/-- **A user-owned field follows its owner.** After every run of creates and updates, a stored value of the
field is encrypted under a subject whose erasure makes it unreadable. That is the owner a reader finds in the
row, and in a row without an owner the last one it had, or the subject some write to the row without an owner
resolved. -/
theorem personal_fields_follow_owner (ex : EntityExecutor J) (history : List (Keying J)) (row : PersonalRow J)
    (hrun : PersonalRun ex history row) (name : String) (userOwned : UserOwned)
    (hname : name ∈ collectPiiEncryptedFields ex.entity)
    (hfield : (ex.entity.field name).bind (·.plainUserOwned) = some userOwned) (stored : FieldValue J)
    (hstored : row.stored name = some stored) (hpresent : isAbsent stored = false) :
    ∃ subject value, ex.KeyedTo row.keys name value stored subject ∧
      (∀ subjectKey, subjectIdToKey subject = .ok subjectKey →
        decryptField ex.aes ex.json (Function.update row.keys subjectKey (some .erased)) name stored =
          .ok piiErasedSentinel) ∧
      (∀ read, ex.decryptForRead row.keys row.stored = .ok read →
        nonEmptyString (read.value userOwned.ownerField) = currentOwner history userOwned.ownerField) ∧
      match currentOwner history userOwned.ownerField with
      | some owner => subject = .user owner
      | none => (lastOwner history userOwned.ownerField).map .user = some subject ∨ ∃ keying ∈ history,
          nonEmptyString (keying.source.value userOwned.ownerField) = none ∧
            ex.subject keying name = .ok (some subject) := by
  have hinv := hrun.inv
  obtain ⟨keying, hmem, value, hholds, hfollows⟩ := hinv.fields name hname stored hstored
  obtain ⟨inner, hinner, hinto⟩ := hholds.storedAs
  have habsent : isAbsent value = false := by
    cases hvalue : isAbsent value with
    | false => rfl
    | true =>
      have hsame : inner = value := by simpa [FieldStorage.Enveloped, hvalue] using hinner
      have hkept : isKept inner = true := by rw [hsame, isKept, hvalue]; rfl
      rw [if_neg (by simp [hkept]), hsame] at hinto
      rw [hinto, hvalue] at hpresent
      cases hpresent
  have hplain : ex.Plain name value := by
    rcases hholds.plain hname with h | h
    · rw [habsent] at h
      cases h
    · exact h
  rw [if_pos ⟨hname, hplain.inner_not_kept hinner⟩] at hinto
  obtain ⟨subject, hsubject, hkeyed⟩ := hinto
  refine ⟨subject, inner, hkeyed, fun subjectKey hkey => hkeyed.erased hkey (Function.update_self ..),
    fun read hread => (hinv.read_owner hread ⟨name, userOwned, hfield, rfl⟩).2, ?_⟩
  have hfollow := hfollows userOwned hfield habsent
  unfold Follows at hfollow
  cases howner : nonEmptyString (keying.source.value userOwned.ownerField) with
  | none =>
    rw [howner] at hfollow
    rw [hfollow]
    exact .inr ⟨keying, hmem, howner, hsubject⟩
  | some owner =>
    rw [howner] at hfollow
    have huser : subject = .user owner := by
      have heq := hsubject.symm.trans (EntityExecutor.subject_of_owner hfield howner)
      exact Option.some.inj (Except.ok.inj heq)
    cases hcurrent : currentOwner history userOwned.ownerField with
    | none => exact .inl (by rw [show lastOwner history userOwned.ownerField = some owner from hfollow, huser]; rfl)
    | some current =>
      have hsame := (lastOwner_of_currentOwner hcurrent).symm.trans hfollow
      rw [huser, Option.some.inj hsame]

end

/-! ### A ticket changes hands -/

/-- A cipher that marks its text; nothing below is `encrypted`. -/
def markedEnvelope : EnvelopeCipher where
  encrypt _ _ plaintext := .ofList ('\x7b' :: plaintext.wellFormed.toList)
  decrypt _ stored :=
    match stored.toList with
    | '\x7b' :: rest => some (.ofList rest)
    | _ => none
  encrypt_json _ _ plaintext := ⟨plaintext.wellFormed.toList, by simp⟩
  decrypt_encrypt _ _ _ plaintext opened h := by
    simp only [String.toList_ofList, String.ofList_toList, Option.some.injEq] at h
    exact h.symm

/-- `JSON.stringify` of a value that holds nothing to escape. -/
def quotedJson : FieldValue Empty → Option JsText
  | .undefined => none
  | .null => some (.of "null")
  | .number decimal => some (.of decimal)
  | .text s => some ⟨.ofList ('"' :: s.wellFormed.toList ++ ['"']), s.lone⟩

/-- Tickets with a text about the user they are assigned to, or about the tenant while nobody is. -/
def ticketExecutor : EntityExecutor Empty where
  aes := nullCipher
  json := noJson
  envelope := markedEnvelope
  entity :=
    { fields := [("assigneeId", ⟨.other, false, false, none, false⟩),
        ("note", ⟨.other, false, false, some ⟨"assigneeId", some .tenant⟩, false⟩)]
      nodup := by decide }
  entityName := "ticket"
  encryptedFields := []
  nodup := by decide
  encrypted_text _ h := nomatch h
  isColumn _ := true
  field_column name h := by
    refine ⟨rfl, ?_, ?_⟩ <;> rintro rfl <;> exact absurd h (by decide)
  owner_text name userOwned h := by
    cases hassignee : name == "assigneeId" with
    | true => simp [EntityDefinition.field, List.lookup_cons, hassignee, FieldDefinition.plainUserOwned] at h
    | false =>
      cases hnote : name == "note" with
      | true =>
        obtain rfl : ⟨"assigneeId", some .tenant⟩ = userOwned := by
          simpa [EntityDefinition.field, List.lookup_cons, hassignee, hnote, FieldDefinition.plainUserOwned] using h
        rfl
      | false => simp [EntityDefinition.field, List.lookup_cons, hassignee, hnote] at h
  stableJson := quotedJson
  stableJson_text s t h := by
    obtain ⟨htext, hlone⟩ := JsText.mk.inj (Option.some.inj h)
    have hlist := congrArg String.toList htext
    simp only [String.toList_ofList, List.cons_append, List.cons.injEq, List.append_cancel_right_eq, true_and,
      String.toList_inj] at hlist
    cases s
    cases t
    simp_all
  stableJson_absent s value habsent h := by
    cases value with
    | undefined => cases h
    | null =>
      have htext := congrArg (String.toList ∘ JsText.wellFormed) (Option.some.inj h)
      simp [JsText.of] at htext
    | text _ => cases habsent
    | number _ => cases habsent
    | other v => cases v

/-- A note about the user the ticket is assigned to. -/
def newTicket : CreateCall Empty where
  data := fun name =>
    if name = "assigneeId" then some (.text (.of "u1"))
    else if name = "note" then some (.text (.of "hi"))
    else none
  aggregateId := "k1"
  userTenantId := "t1"
  streamTenantId := none
  eventTenantId := "t1"
  draws := ⟨(writeUser (.of "")).random, fun _ => []⟩

/-- An update of the assignee alone. -/
def assign (assignee : FieldValue Empty) : UpdateCall Empty where
  changes := fun name => if name = "assigneeId" then some assignee else none
  preSave changes _ := some changes
  allowed _ _ := true
  skipUnchanged := true
  userTenantId := "t1"
  streamTenantId := none
  onErasedSubject := none
  draws := newTicket.draws
  previousDraws := newTicket.draws

theorem isOwner_ticket (h : ticketExecutor.IsOwner owner) : owner = "assigneeId" := by
  obtain ⟨name, userOwned, hname, rfl⟩ := h
  have htype := ticketExecutor.owner_text name userOwned hname
  cases hassignee : userOwned.ownerField == "assigneeId" with
  | true => exact beq_iff_eq.mp hassignee
  | false =>
    cases hnote : name == "note" with
    | true =>
      obtain rfl := beq_iff_eq.mp hnote
      obtain rfl : ⟨"assigneeId", some .tenant⟩ = userOwned := Option.some.inj hname
      cases hassignee
    | false =>
      cases hname' : name == "assigneeId" with
      | true =>
        obtain rfl := beq_iff_eq.mp hname'
        cases hname
      | false => simp [ticketExecutor, EntityDefinition.field, List.lookup_cons, hname', hnote] at hname

theorem accepts_assign {assignee : FieldValue Empty} (h : TextOrAbsent assignee) :
    ticketExecutor.Accepts (assign assignee).changes := by
  refine ⟨fun owner howner => ?_, fun name hname value hvalue => ?_⟩
  · rw [isOwner_ticket howner]
    exact h
  · obtain rfl : name = "note" := List.mem_singleton.mp hname
    cases hvalue

theorem accepts_newTicket : ticketExecutor.Accepts newTicket.data := by
  refine ⟨fun owner howner => ?_, fun name hname value hvalue => ?_⟩
  · rw [isOwner_ticket howner]
    exact .inr ⟨_, rfl⟩
  · obtain rfl : name = "note" := List.mem_singleton.mp hname
    obtain rfl : FieldValue.text (.of "hi") = value := Option.some.inj hvalue
    exact .inr (FieldStorage.plain_text rfl (by decide) (by decide))

/-- A ticket that is assigned once more. -/
theorem ticketRun (assignee : FieldValue Empty) (h : TextOrAbsent assignee) {previous : EntityRow Empty}
    {row row' : PersonalRow Empty} (hcreate : ticketExecutor.create newTicket (fun _ => none) = .ok row)
    (hread : ticketExecutor.decryptForRead row.keys row.stored = .ok previous)
    (hupdate : ticketExecutor.update (assign assignee) row = .ok row') :
    PersonalRun ticketExecutor
      [(assign assignee).keying previous (assign assignee).changes, newTicket.keying] row' := by
  have hempty : NoTombstone fun _ => none := fun _ h => nomatch h
  exact .updated (.created hempty accepts_newTicket hcreate) hread rfl (accepts_assign h) hupdate

/-- The note of a ticket handed over to `u2` is erased with `u2`. -/
theorem personal_fields_follow_owner_handOver : ∃ history row stored, PersonalRun ticketExecutor history row ∧
    row.stored "note" = some stored ∧
    ∃ value, ticketExecutor.KeyedTo row.keys "note" value stored (.user "u2") := by
  have hrun := ticketRun (.text (.of "u2")) (.inr ⟨_, rfl⟩) rfl rfl rfl
  refine ⟨_, _, _, hrun, rfl, ?_⟩
  obtain ⟨subject, value, hkeyed, -, -, howner⟩ := personal_fields_follow_owner ticketExecutor _ _ hrun "note"
    ⟨"assigneeId", some .tenant⟩ (by decide) rfl _ rfl rfl
  obtain rfl : subject = .user "u2" := howner
  exact ⟨value, hkeyed⟩

/-- Every stored user-owned field is encrypted under the subject its row resolves to. -/
def ResolvesToItsKey (ex : EntityExecutor J) (row : PersonalRow J) : Prop :=
  ∀ name ∈ collectPiiEncryptedFields ex.entity, ((ex.entity.field name).bind (·.plainUserOwned)).isSome = true →
    ∀ stored, row.stored name = some stored → isAbsent stored = false →
    ∀ read, ex.decryptForRead row.keys row.stored = .ok read → ∀ tenantId, ∃ subject value,
      ex.KeyedTo row.keys name value stored subject ∧ ex.subject ⟨read, tenantId⟩ name = .ok (some subject)

/-- A ticket nobody is assigned to any more keeps its note under the key of `u1`, and resolves to the tenant. -/
theorem not_personal_fields_resolve :
    ¬ ∀ (ex : EntityExecutor Empty) (history : List (Keying Empty)) (row : PersonalRow Empty),
      PersonalRun ex history row → ResolvesToItsKey ex row := by
  intro h
  have hrun := ticketRun .null (.inl rfl) rfl rfl rfl
  obtain ⟨subject, value, hkeyed, hsubject⟩ :=
    h ticketExecutor _ _ hrun "note" (by decide) rfl _ rfl rfl _ rfl "t1"
  obtain rfl : .tenant "t1" = subject := Option.some.inj (Except.ok.inj hsubject)
  obtain ⟨text, subjectKey, parsed, hstored, -, hparse, hparsed, -⟩ := hkeyed.parse
  obtain rfl := congrArg JsText.wellFormed (FieldValue.text.inj hstored)
  have huser : parsed.subject = .user "u1" := congrArg ParsedCiphertext.subject (Except.ok.inj hparse.symm)
  rw [hparsed] at huser
  cases huser

end Kumiko
