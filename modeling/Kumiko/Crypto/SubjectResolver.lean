import Mathlib.Data.List.Nodup
import Kumiko.Crypto.SubjectId

/-!
# The subject of a personal field

`crypto/subject-resolver.ts`. A personal field is annotated with whose data it is: the record's own
(`recordOwned`), a user's named by another field of the row (`userOwned`, with what to do when that field is
empty), the tenant's (`tenantOwned`) or the entity's itself (`pii`). `resolveSubjectForField` reads the
subject, whose key encrypts the field, off the row.
-/

namespace Kumiko

/-! ## Rows -/

/-- A JavaScript string: its well-formed text, and the lone surrogates that `toWellFormed` replaces, by
position. A well-formed string has none, and UTF-8 keeps the first component only. -/
structure JsText where
  wellFormed : String
  lone : List (ℕ × UInt16)
  deriving DecidableEq

/-- A string without lone surrogates. -/
def JsText.of (s : String) : JsText := ⟨s, []⟩

/-- A value of a row: `number` by its decimal text, `other` any boolean, array or object. -/
inductive FieldValue (J : Type*) where
  | undefined
  | null
  | text (s : JsText)
  | number (decimal : String)
  | other (v : J)
  deriving DecidableEq

/-- A row, by field name; `none` where the row has no such key. -/
abbrev EntityRow (J : Type*) := String → Option (FieldValue J)

variable {J : Type*}

/-- `row[name]` -/
def EntityRow.value (row : EntityRow J) (name : String) : FieldValue J :=
  (row name).getD .undefined

/-! ## Declarations -/

/-- Reference: the `whenAbsent` of `userOwned`. -/
inductive WhenAbsent where
  | tenant
  | self

/-- Reference: `ResolvedPiiFlags["userOwned"]`. -/
structure UserOwned where
  ownerField : String
  whenAbsent : Option WhenAbsent

/-- The field types the code tells apart. -/
inductive FieldType where
  | jsonb
  | file
  | image
  | files
  | images
  | other
  deriving DecidableEq

structure FieldDefinition where
  type : FieldType
  pii : Bool
  recordOwned : Bool
  userOwned : Option UserOwned
  tenantOwned : Bool

/-- The fields of an entity; an object has each key once. -/
structure EntityDefinition where
  fields : List (String × FieldDefinition)
  nodup : (fields.map Prod.fst).Nodup

/-- `entity.fields[name]` -/
def EntityDefinition.field (entity : EntityDefinition) (name : String) : Option FieldDefinition :=
  entity.fields.lookup name

/-- Reference: `isFileField`. -/
def isFileField (field : FieldDefinition) : Bool :=
  field.type = .file || field.type = .image || field.type = .files || field.type = .images

/-- Reference: `hasSubjectAnnotation`. -/
def hasSubjectAnnotation (field : FieldDefinition) : Bool :=
  field.userOwned.isSome || field.tenantOwned || field.recordOwned || field.pii

/-- Reference: `collectPiiEncryptedFields`. -/
def collectPiiEncryptedFields (entity : EntityDefinition) : List String :=
  (entity.fields.filter fun field => hasSubjectAnnotation field.2 && !isFileField field.2).map Prod.fst

theorem collectPiiEncryptedFields_nodup (entity : EntityDefinition) :
    (collectPiiEncryptedFields entity).Nodup :=
  entity.nodup.sublist (List.filter_sublist.map _)

/-- A declared field is found under its name. -/
theorem EntityDefinition.field_of_mem {entity : EntityDefinition} {name : String} {field : FieldDefinition}
    (h : (name, field) ∈ entity.fields) : entity.field name = some field := by
  have hnodup := entity.nodup
  unfold EntityDefinition.field
  generalize entity.fields = fields at h hnodup
  induction fields with
  | nil => cases h
  | cons head rest ih =>
    obtain ⟨key, field'⟩ := head
    rcases List.mem_cons.mp h with heq | hrest
    · cases heq
      simp
    · have hne : (name == key) = false := by
        rw [beq_eq_false_iff_ne]
        rintro rfl
        exact (List.nodup_cons.mp hnodup).1 (List.mem_map.mpr ⟨_, hrest, rfl⟩)
      rw [List.lookup_cons, hne]
      exact ih hrest (List.nodup_cons.mp hnodup).2

/-- The declaration behind a name the encryption processes. -/
theorem exists_field_of_mem {entity : EntityDefinition} {name : String}
    (h : name ∈ collectPiiEncryptedFields entity) :
    ∃ field, entity.field name = some field ∧ hasSubjectAnnotation field = true := by
  obtain ⟨⟨name', field⟩, hmem, rfl⟩ := List.mem_map.mp h
  obtain ⟨hmem, hannotated⟩ := List.mem_filter.mp hmem
  rw [Bool.and_eq_true] at hannotated
  exact ⟨field, EntityDefinition.field_of_mem hmem, hannotated.1⟩

/-! ## Resolution -/

/-- Reference: `SubjectResolutionError`. -/
structure SubjectResolutionError where
  fieldName : String
  reason : String

/-- Reference: `ResolveSubjectOptions`. -/
structure ResolveSubjectOptions (J : Type*) where
  tenantId : Option String
  entityName : String
  ownerFallback : Option (EntityRow J)
  ignoreWhenAbsent : Bool

/-- Reference: `nonEmptyString`. -/
def nonEmptyString : FieldValue J → Option String
  | .text s => if s.wellFormed = "" then none else some s.wellFormed
  | _ => none

/-- Reference: `rowIdAsString`. -/
def rowIdAsString (row : EntityRow J) : Option String :=
  match nonEmptyString (row.value "id"), row.value "id" with
  | some id, _ => some id
  | none, .number decimal => some decimal
  | none, _ => none

/-- Reference: `resolveRecordSubject`. -/
def resolveRecordSubject (fieldName : String) (row : EntityRow J) (opts : ResolveSubjectOptions J) :
    Except SubjectResolutionError SubjectId :=
  if opts.entityName = "" then
    .error ⟨fieldName, "record subject needs the entity name; caller did not supply one"⟩
  else
    match rowIdAsString row with
    | none => .error ⟨fieldName, "row has no id to use as the record subject"⟩
    | some recordId => .ok (.record opts.entityName recordId)

/-- Reference: `resolveTenantSubject`. -/
def resolveTenantSubject (fieldName : String) (row : EntityRow J) (opts : ResolveSubjectOptions J) :
    Except SubjectResolutionError SubjectId :=
  match (nonEmptyString (row.value "tenantId")).or opts.tenantId with
  | none =>
    .error ⟨fieldName, "row has no tenantId column and no write-time tenantId was provided"⟩
  | some tenantId => .ok (.tenant tenantId)

/-- The owner a row names, or the fallback row. -/
def ownerOf (ownerField : String) (row : EntityRow J) (ownerFallback : Option (EntityRow J)) :
    Option String :=
  (nonEmptyString (row.value ownerField)).or
    (ownerFallback.bind fun fallback => nonEmptyString (fallback.value ownerField))

/-- Reference: `resolveUserOwnedSubject`. -/
def resolveUserOwnedSubject (userOwned : UserOwned) (fieldName : String) (row : EntityRow J)
    (opts : ResolveSubjectOptions J) : Except SubjectResolutionError SubjectId :=
  match ownerOf userOwned.ownerField row opts.ownerFallback with
  | some userId => .ok (.user userId)
  | none =>
    match (if opts.ignoreWhenAbsent then none else userOwned.whenAbsent) with
    | some .tenant => resolveTenantSubject fieldName row opts
    | some .self => resolveRecordSubject fieldName row opts
    | none =>
      .error ⟨fieldName, "owner field \"" ++ userOwned.ownerField ++
        "\" is empty on the row and the field declares no whenAbsent — declare \x7b personal: \x7b of: \"" ++
        userOwned.ownerField ++ "\", whenAbsent: \"tenant\" \x7d \x7d or whenAbsent: \"self\" to key it on " ++
        "the row itself (fw#3654)"⟩

/-- Reference: `resolveSelfPiiSubject`. -/
def resolveSelfPiiSubject (fieldName : String) (row : EntityRow J) :
    Except SubjectResolutionError SubjectId :=
  match rowIdAsString row with
  | none => .error ⟨fieldName, "row has no id to use as the pii self-subject"⟩
  | some userId => .ok (.user userId)

/-- The subject whose key encrypts the field; `none` for a field that is not personal.
Reference: `resolveSubjectForField`. -/
def resolveSubjectForField (entity : EntityDefinition) (fieldName : String) (row : EntityRow J)
    (opts : ResolveSubjectOptions J) : Except SubjectResolutionError (Option SubjectId) :=
  match entity.field fieldName with
  | none => .error ⟨fieldName, "field is not defined on the entity"⟩
  | some field =>
    if field.recordOwned then (resolveRecordSubject fieldName row opts).map some
    else
      match field.userOwned with
      | some userOwned => (resolveUserOwnedSubject userOwned fieldName row opts).map some
      | none =>
        if field.tenantOwned then (resolveTenantSubject fieldName row opts).map some
        else if field.pii then (resolveSelfPiiSubject fieldName row).map some
        else .ok none

/-- A personal field has a subject or its resolution fails; it is never silently nobody's. -/
theorem resolveSubjectForField_ne_none {entity : EntityDefinition} {name : String}
    (h : name ∈ collectPiiEncryptedFields entity) (row : EntityRow J) (opts : ResolveSubjectOptions J) :
    resolveSubjectForField entity name row opts ≠ .ok none := by
  obtain ⟨field, hfield, hannotated⟩ := exists_field_of_mem h
  have hmap (r : Except SubjectResolutionError SubjectId) : r.map some ≠ .ok none := by
    cases r <;> simp [Except.map]
  rw [resolveSubjectForField, hfield]
  cases hrecord : field.recordOwned with
  | true => simpa [hrecord] using hmap _
  | false =>
    cases huser : field.userOwned with
    | some userOwned => simpa [hrecord, huser] using hmap _
    | none =>
      cases htenant : field.tenantOwned with
      | true => simpa [hrecord, huser, htenant] using hmap _
      | false =>
        have hpii : field.pii = true := by
          simpa [ hasSubjectAnnotation, hrecord, huser, htenant] using hannotated
        simpa [hrecord, huser, htenant, hpii] using hmap _

end Kumiko
