import Mathlib.Logic.Relation
import Kumiko.Crypto.PiiFieldEncryption

/-!
# A row on its way to storage and back

`encryptForStorage` and `decryptForRead` of `db/event-store-executor-context.ts`, with
`db/entity-field-encryption.ts`. A field declared `encrypted` goes into an envelope, and a personal one is then
encrypted under its subject's key; reading takes the two off in the opposite order. Compound fields are neither,
and their flattening is left out.
-/

namespace Kumiko

variable {J : Type*} {name : String} {value stored : FieldValue J}

/-- `{ ...row, ...changes }` -/
def EntityRow.overlay (row changes : EntityRow J) : EntityRow J :=
  fun name => (changes name).or (row name)

/-- The fields a reader decrypts: those of the write path, and the file references, which older rows hold
encrypted. Reference: `collectPiiSubjectFields`. -/
def collectPiiSubjectFields (entity : EntityDefinition) : List String :=
  (entity.fields.filter fun field => hasSubjectAnnotation field.2).map Prod.fst

theorem collectPiiSubjectFields_nodup (entity : EntityDefinition) : (collectPiiSubjectFields entity).Nodup :=
  entity.nodup.sublist (List.filter_sublist.map _)

theorem collectPiiEncryptedFields_subset {entity : EntityDefinition}
    (h : name ∈ collectPiiEncryptedFields entity) : name ∈ collectPiiSubjectFields entity := by
  obtain ⟨field, hfield, rfl⟩ := List.mem_map.mp h
  obtain ⟨hmem, hannotated⟩ := List.mem_filter.mp hfield
  rw [Bool.and_eq_true] at hannotated
  exact List.mem_map.mpr ⟨field, List.mem_filter.mpr ⟨hmem, hannotated.1⟩, rfl⟩

/-- A personal text field is no file reference, and so the write path encrypts it. -/
theorem mem_collectPiiEncryptedFields_of_text {entity : EntityDefinition}
    (htype : (entity.field name).map (·.type) = some .other) (h : name ∈ collectPiiSubjectFields entity) :
    name ∈ collectPiiEncryptedFields entity := by
  obtain ⟨⟨name', field⟩, hfield, rfl⟩ := List.mem_map.mp h
  obtain ⟨hmem, hannotated⟩ := List.mem_filter.mp hfield
  rw [EntityDefinition.field_of_mem hmem] at htype
  have hother : field.type = .other := Option.some.inj htype
  exact List.mem_map.mpr ⟨_, List.mem_filter.mpr ⟨hmem, by simp [hannotated, isFileField, hother]⟩, rfl⟩

/-! ## Envelopes -/

/-- The envelope cipher: a scope, what the encryption draws and a plaintext give the JSON text of a stored
envelope. Opening one under any scope gives its plaintext or fails. Reference: `EnvelopeCipher`. -/
structure EnvelopeCipher where
  encrypt : Option String → Bytes → JsText → String
  decrypt : Option String → String → Option String
  encrypt_json : ∀ scope draw plaintext, ∃ rest, (encrypt scope draw plaintext).toList = '\x7b' :: rest
  decrypt_encrypt : ∀ scope scope' draw plaintext opened,
    decrypt scope' (encrypt scope draw plaintext) = some opened → opened = plaintext.wellFormed

/-- Reference: `scopeOf`. -/
def scopeOf (row : EntityRow J) : Option String :=
  match row.value "tenantId" with
  | .text s => some s.wellFormed
  | _ => none

/-- What goes wrong on the way to storage or back. -/
inductive StorageError where
  | pii (error : PiiError)
  | notAString (field : String)
  | envelopeMalformed (field : String)

/-- The loop that treats each listed field a row has. -/
def mapFieldValues {ε : Type*} (f : String → FieldValue J → Except ε (FieldValue J)) :
    List String → EntityRow J → Except ε (EntityRow J)
  | [], out => .ok out
  | name :: names, out =>
    match out name with
    | none => mapFieldValues f names out
    | some value =>
      match f name value with
      | .error e => .error e
      | .ok value => mapFieldValues f names (Function.update out name (some value))

/-- What the loop makes of a listed field. -/
def Mapped {ε : Type*} (f : String → FieldValue J → Except ε (FieldValue J)) (name : String) :
    Option (FieldValue J) → Option (FieldValue J) → Prop
  | none, out => out = none
  | some value, out => ∃ value', f name value = .ok value' ∧ out = some value'

theorem mapFieldValues_spec {ε : Type*} {f : String → FieldValue J → Except ε (FieldValue J)} :
    ∀ {names : List String} {row out : EntityRow J}, names.Nodup → mapFieldValues f names row = .ok out →
      (∀ name ∈ names, Mapped f name (row name) (out name)) ∧ ∀ name, name ∉ names → out name = row name
  | [], row, out, _, h => by
    obtain rfl := Except.ok.inj h
    exact ⟨(fun _ hname => nomatch hname), fun _ _ => rfl⟩
  | name :: names, row, out, hnodup, h => by
    obtain ⟨hnotin, hnodup⟩ := List.nodup_cons.mp hnodup
    unfold mapFieldValues at h
    split at h
    · rename_i hnone
      obtain ⟨hdone, hothers⟩ := mapFieldValues_spec hnodup h
      refine ⟨fun other hmem => ?_, fun other hmem => hothers other fun hin => hmem (List.mem_cons_of_mem _ hin)⟩
      rcases List.mem_cons.mp hmem with rfl | hin
      · rw [hothers other hnotin, hnone]
        rfl
      · exact hdone other hin
    · rename_i value hvalue
      split at h
      · cases h
      · rename_i value' hf
        obtain ⟨hdone, hothers⟩ := mapFieldValues_spec hnodup h
        refine ⟨fun other hmem => ?_, fun other hmem => ?_⟩
        · rcases List.mem_cons.mp hmem with rfl | hin
          · rw [hothers other hnotin, Function.update_self, hvalue]
            exact ⟨value', hf, rfl⟩
          · have hne : other ≠ name := fun heq => hnotin (heq ▸ hin)
            have hmapped := hdone other hin
            rwa [Function.update_of_ne hne] at hmapped
        · rw [List.mem_cons, not_or] at hmem
          obtain ⟨hne, hin⟩ := hmem
          rw [hothers other hin, Function.update_of_ne hne]

/-- One field into its envelope. Reference: `encryptFieldValue`. -/
def EnvelopeCipher.sealField (envelope : EnvelopeCipher) (scope : Option String) (draw : String → Bytes)
    (name : String) (value : FieldValue J) : Except StorageError (FieldValue J) :=
  if isAbsent value then .ok value
  else
    match value with
    | .text s => .ok (.text (.of (envelope.encrypt scope (draw name) s)))
    | _ => .error (.notAString name)

/-- One field out of its envelope; whatever is not text is left. -/
def EnvelopeCipher.openField (envelope : EnvelopeCipher) (scope : Option String) (name : String)
    (value : FieldValue J) : Except StorageError (FieldValue J) :=
  match value with
  | .text s =>
    match envelope.decrypt scope s.wellFormed with
    | none => .error (.envelopeMalformed name)
    | some opened => .ok (.text (.of opened))
  | _ => .ok value

/-- Reference: `encryptEntityFieldValues`. -/
def EnvelopeCipher.encryptEntityFieldValues (envelope : EnvelopeCipher) (draw : String → Bytes)
    (encryptedFields : List String) (onlyKeys : Option (List String)) (row : EntityRow J) :
    Except StorageError (EntityRow J) :=
  mapFieldValues (envelope.sealField (scopeOf row) draw)
    (encryptedFields.filter fun name => onlyKeys.all (name ∈ ·)) row

/-- Reference: `decryptEntityFieldValues`. -/
def EnvelopeCipher.decryptEntityFieldValues (envelope : EnvelopeCipher) (encryptedFields : List String)
    (row : EntityRow J) : Except StorageError (EntityRow J) :=
  mapFieldValues (envelope.openField (scopeOf row)) encryptedFields row

/-- An envelope is not taken for a ciphertext or for the sentinel of an erased value. -/
theorem EnvelopeCipher.not_kept (envelope : EnvelopeCipher) (scope : Option String) (draw : Bytes)
    (plaintext : JsText) : isKept (.text (.of (envelope.encrypt scope draw plaintext)) : FieldValue J) = false := by
  obtain ⟨rest, hrest⟩ := envelope.encrypt_json scope draw plaintext
  generalize envelope.encrypt scope draw plaintext = text at hrest
  have hne : text ≠ "[[erased]]" := by
    rintro rfl
    exact absurd hrest (by simp)
  have hprefix : ∀ start : List Char, start.head? = some 'k' → start.isPrefixOf text.toList = false := by
    intro start hstart
    cases start with
    | nil => cases hstart
    | cons c start =>
      obtain rfl : c = 'k' := Option.some.inj hstart
      rw [hrest]
      rfl
  simp [isKept, isAbsent, isPiiCiphertext, isErasedSentinel, JsText.of, startsWith, hne,
    hprefix piiCiphertextPrefix.toList (by decide), hprefix piiCiphertextPrefixJson.toList (by decide),
    hprefix piiCiphertextPrefixV1.toList (by decide)]

/-! ## The two directions -/

/-- What the executor of an entity holds: its ciphers, its declaration and the names of its `encrypted`
fields, which are all text. -/
structure FieldStorage (J : Type*) where
  aes : AesGcmAad
  json : Json J
  envelope : EnvelopeCipher
  entity : EntityDefinition
  entityName : String
  encryptedFields : List String
  nodup : encryptedFields.Nodup
  encrypted_text : ∀ name ∈ encryptedFields, (entity.field name).map (·.type) = some .other

/-- The options of `encryptForStorage`. -/
structure StorageOptions (J : Type*) where
  onlyKeys : Option (List String)
  subjectSource : Option (EntityRow J)
  keyTenantId : Option String
  ownerFallback : Option (EntityRow J)
  onErasedSubject : Option ErasedSubjectHandling

/-- What one encryption of a row draws, by field. -/
structure StorageDraws where
  pii : String → FieldRandom
  envelope : String → Bytes

/-- The personal half of `encryptForStorage`. -/
def FieldStorage.encryptCall (fs : FieldStorage J) (userTenantId : String) (opts : StorageOptions J)
    (draws : StorageDraws) (row : EntityRow J) : EncryptCall J where
  aes := fs.aes
  json := fs.json
  entity := fs.entity
  row := row
  opts := ⟨opts.onlyKeys, some (opts.keyTenantId.getD userTenantId), opts.subjectSource, fs.entityName,
    opts.ownerFallback, opts.onErasedSubject⟩
  random := draws.pii

/-- Reference: `encryptForStorage`. -/
def FieldStorage.encryptForStorage (fs : FieldStorage J) (row : EntityRow J) (userTenantId : String)
    (opts : StorageOptions J) (draws : StorageDraws) (keys : KeyStore) :
    Except StorageError (EntityRow J × KeyStore) :=
  match fs.envelope.encryptEntityFieldValues draws.envelope fs.encryptedFields opts.onlyKeys row with
  | .error e => .error e
  | .ok out =>
    ((fs.encryptCall userTenantId opts draws out).encryptPiiFieldValues (collectPiiEncryptedFields fs.entity)
      keys).mapError .pii

/-- Reference: `decryptForRead`. -/
def FieldStorage.decryptForRead (fs : FieldStorage J) (keys : KeyStore) (row : EntityRow J) :
    Except StorageError (EntityRow J) :=
  match decryptPiiFieldValues fs.aes fs.json keys (collectPiiSubjectFields fs.entity) row with
  | .error e => .error (.pii e)
  | .ok out => fs.envelope.decryptEntityFieldValues fs.encryptedFields out

/-! ## What is stored for a value -/

/-- No subject has been erased. -/
def NoTombstone (keys : KeyStore) : Prop := ∀ key, keys key ≠ some .erased

theorem StoreExt.noTombstone {keys keys' : KeyStore} (h : StoreExt keys keys') (hkeys : NoTombstone keys) :
    NoTombstone keys' :=
  fun key herased => hkeys key (h.erased key herased)

/-- Where a write reads the subjects of its fields: a row, and the tenant it writes for. -/
structure Keying (J : Type*) where
  source : EntityRow J
  tenantId : String

/-- The subject of a field for a write. -/
def FieldStorage.subject (fs : FieldStorage J) (keying : Keying J) (name : String) :
    Except SubjectResolutionError (Option SubjectId) :=
  resolveSubjectForField fs.entity name keying.source ⟨some keying.tenantId, fs.entityName, none, false⟩

/-- The text is an encryption by this executor under a live key of the subject. -/
def FieldStorage.KeyedTo (fs : FieldStorage J) (keys : KeyStore) (name : String) (value stored : FieldValue J)
    (subject : SubjectId) : Prop :=
  ∃ call : EncryptCall J, call.aes = fs.aes ∧ call.json = fs.json ∧ call.entity = fs.entity ∧
    ∃ subjectKey dek plaintext text, Encrypted call keys name value stored subject subjectKey dek plaintext text

theorem FieldStorage.KeyedTo.ext {fs : FieldStorage J} {keys keys' : KeyStore}
    {subject : SubjectId} (h : fs.KeyedTo keys name value stored subject)
    (hext : StoreExt keys keys') : fs.KeyedTo keys' name value stored subject := by
  obtain ⟨call, haes, hjson, hentity, subjectKey, dek, plaintext, text, henc⟩ := h
  exact ⟨call, haes, hjson, hentity, subjectKey, dek, plaintext, text,
    { henc with live := hext.live _ _ henc.live }⟩

/-- The value in its envelope, if the field has one. -/
def FieldStorage.Enveloped (fs : FieldStorage J) (name : String) (value inner : FieldValue J) : Prop :=
  if name ∈ fs.encryptedFields ∧ isAbsent value = false then
    ∃ scope draw s, value = .text s ∧ inner = .text (.of (fs.envelope.encrypt scope draw s))
  else inner = value

/-- What is stored for a value: its envelope, encrypted under the key of the subject if it is personal. -/
def FieldStorage.StoredAs (fs : FieldStorage J) (keying : Keying J) (keys : KeyStore) (name : String)
    (value stored : FieldValue J) : Prop :=
  ∃ inner, fs.Enveloped name value inner ∧
    if name ∈ collectPiiEncryptedFields fs.entity ∧ isKept inner = false then
      ∃ subject, fs.subject keying name = .ok (some subject) ∧ fs.KeyedTo keys name inner stored subject
    else stored = inner

theorem FieldStorage.StoredAs.ext {fs : FieldStorage J} {keying : Keying J} {keys keys' : KeyStore}
    (h : fs.StoredAs keying keys name value stored)
    (hext : StoreExt keys keys') : fs.StoredAs keying keys' name value stored := by
  obtain ⟨inner, hinner, hstored⟩ := h
  refine ⟨inner, hinner, ?_⟩
  split
  · rename_i hpersonal
    rw [if_pos hpersonal] at hstored
    obtain ⟨subject, hsubject, hkeyed⟩ := hstored
    exact ⟨subject, hsubject, hkeyed.ext hext⟩
  · rename_i hplain
    rwa [if_neg hplain] at hstored

/-- The keys selected for a write are all that the row has. -/
def FieldStorage.Covers (fs : FieldStorage J) (onlyKeys : Option (List String)) (row : EntityRow J) : Prop :=
  ∀ keys, onlyKeys = some keys → ∀ name, (fs.entity.field name).isSome = true → row name ≠ none → name ∈ keys

section

variable {fs : FieldStorage J} {row out : EntityRow J} {keys keys' : KeyStore} {tenant : String}
  {opts : StorageOptions J} {draws : StorageDraws}

theorem FieldStorage.field_isSome (h : name ∈ fs.encryptedFields) :
    (fs.entity.field name).isSome = true := by
  have htext := fs.encrypted_text name h
  cases hfield : fs.entity.field name with
  | none => simp [hfield] at htext
  | some _ => rfl

/-- The envelopes of a row. -/
theorem encryptEntityFieldValues_spec (hcovers : fs.Covers opts.onlyKeys row)
    (h : fs.envelope.encryptEntityFieldValues draws.envelope fs.encryptedFields opts.onlyKeys row = .ok out)
    (name : String) :
    (row name = none → out name = none) ∧
      ∀ value, row name = some value → ∃ inner, out name = some inner ∧ fs.Enveloped name value inner := by
  obtain ⟨hdone, hothers⟩ := mapFieldValues_spec (fs.nodup.filter _) h
  cases hvalue : row name with
  | none =>
    refine ⟨fun _ => ?_, (fun _ h => nomatch h)⟩
    rcases Classical.em (name ∈ fs.encryptedFields.filter fun name => opts.onlyKeys.all (name ∈ ·)) with hin | hin
    · have hmapped := hdone name hin
      rwa [hvalue] at hmapped
    · rw [hothers name hin, hvalue]
  | some value =>
    refine ⟨(fun h => nomatch h), fun value' heq => ?_⟩
    obtain rfl := Option.some.inj heq
    rcases Classical.em (name ∈ fs.encryptedFields) with hmem | hmem
    · have hselected : opts.onlyKeys.all (decide <| name ∈ ·) = true := by
        cases hkeys : opts.onlyKeys with
        | none => rfl
        | some keys =>
          simpa using hcovers keys hkeys name (fs.field_isSome hmem) (by rw [hvalue]; exact nofun)
      have hmapped := hdone name (List.mem_filter.mpr ⟨hmem, hselected⟩)
      rw [hvalue] at hmapped
      obtain ⟨inner, hseal, hout⟩ := hmapped
      refine ⟨inner, hout, ?_⟩
      unfold EnvelopeCipher.sealField at hseal
      unfold FieldStorage.Enveloped
      cases habsent : isAbsent value with
      | true =>
        rw [habsent, if_pos rfl] at hseal
        rw [if_neg (by simp)]
        exact (Except.ok.inj hseal).symm
      | false =>
        rw [habsent, if_neg (by simp)] at hseal
        rw [if_pos ⟨hmem, rfl⟩]
        cases value with
        | text s => exact ⟨_, _, s, rfl, (Except.ok.inj hseal).symm⟩
        | undefined => cases hseal
        | null => cases hseal
        | number _ => cases hseal
        | other _ => cases hseal
    · refine ⟨value, ?_, by rw [FieldStorage.Enveloped, if_neg (fun h => hmem h.1)]⟩
      rw [hothers name (fun h => hmem (List.mem_filter.mp h).1), hvalue]

/-- A step of the loop adds no key to the row. -/
theorem encryptField_none {call : EncryptCall J} {name other : String} {out out' : EntityRow J}
    {store store' : KeyStore} (h : call.encryptField name out store = .ok (out', store'))
    (hnone : out other = none) : out' other = none := by
  unfold EncryptCall.encryptField at h
  split at h
  · obtain ⟨rfl, -⟩ := Prod.mk.inj (Except.ok.inj h)
    exact hnone
  · split at h
    · obtain ⟨rfl, -⟩ := Prod.mk.inj (Except.ok.inj h)
      exact hnone
    · rename_i value hvalue
      split at h
      · obtain ⟨rfl, -⟩ := Prod.mk.inj (Except.ok.inj h)
        exact hnone
      · split at h
        · cases h
        · obtain ⟨rfl, -⟩ := Prod.mk.inj (Except.ok.inj h)
          have hne : other ≠ name := by
            rintro rfl
            rw [hnone] at hvalue
            cases hvalue
          rwa [Function.update_of_ne hne]

/-- Selecting the keys the row has selects nothing. -/
theorem encryptFields_onlyKeys {call : EncryptCall J} {selected : List String}
    (honly : call.opts.onlyKeys = some selected) :
    ∀ {names : List String} {out : EntityRow J} {store : KeyStore},
      (∀ name ∈ names, out name ≠ none → name ∈ selected) →
      call.encryptFields names out store =
        { call with opts := { call.opts with onlyKeys := none } }.encryptFields names out store
  | [], _, _, _ => rfl
  | name :: names, out, store, h => by
    have hfield : call.encryptField name out store =
        { call with opts := { call.opts with onlyKeys := none } }.encryptField name out store := by
      unfold EncryptCall.encryptField
      cases hvalue : out name with
      | none => simp
      | some value =>
        have hmem : name ∈ selected := h name List.mem_cons_self (by rw [hvalue]; exact nofun)
        simp only [honly, Option.any_some, hmem, not_true_eq_false, decide_false, Bool.false_eq_true, if_false,
          Option.any_none]
        rfl
    unfold EncryptCall.encryptFields
    rw [hfield]
    cases hrun : { call with opts := { call.opts with onlyKeys := none } }.encryptField name out store with
    | error e => rfl
    | ok next =>
      refine encryptFields_onlyKeys honly fun other hmem hother => h other (List.mem_cons_of_mem _ hmem) ?_
      intro hnone
      exact hother (encryptField_none hrun hnone)

/-- The personal half, with nothing selected. -/
theorem FieldStorage.encryptFields_of_covers (hcovers : fs.Covers opts.onlyKeys row)
    (hrow : ∀ name, row name = none → out name = none) :
    (fs.encryptCall tenant opts draws out).encryptPiiFieldValues (collectPiiEncryptedFields fs.entity) keys =
      (fs.encryptCall tenant { opts with onlyKeys := none } draws out).encryptFields
        (collectPiiEncryptedFields fs.entity) out keys := by
  cases honly : opts.onlyKeys with
  | none => simp only [EncryptCall.encryptPiiFieldValues, encryptCall, honly]
  | some selected =>
    have hcall : (fs.encryptCall tenant opts draws out).opts.onlyKeys = some selected := honly
    refine encryptFields_onlyKeys hcall fun name hname hpresent => ?_
    obtain ⟨field, hfield, -⟩ := exists_field_of_mem hname
    exact hcovers selected honly name (by rw [hfield]; rfl) fun hnone => hpresent (hrow name hnone)

/-- The two halves of an accepted encryption. -/
theorem FieldStorage.encryptForStorage_ok (hcovers : fs.Covers opts.onlyKeys row)
    (h : fs.encryptForStorage row tenant opts draws keys = .ok (out, keys')) :
    ∃ inner, fs.envelope.encryptEntityFieldValues draws.envelope fs.encryptedFields opts.onlyKeys row = .ok inner ∧
      (fs.encryptCall tenant { opts with onlyKeys := none } draws inner).encryptFields
        (collectPiiEncryptedFields fs.entity) inner keys = .ok (out, keys') := by
  unfold encryptForStorage at h
  split at h
  · cases h
  · rename_i inner hinner
    rw [encryptFields_of_covers hcovers fun name => (encryptEntityFieldValues_spec hcovers hinner name).1] at h
    refine ⟨inner, hinner, ?_⟩
    generalize EncryptCall.encryptFields _ _ _ _ = result at h ⊢
    cases result with
    | error e => cases h
    | ok result => exact congrArg Except.ok (Except.ok.inj h)

/-- An encryption only adds keys to the store. -/
theorem FieldStorage.encryptForStorage_ext (hcovers : fs.Covers opts.onlyKeys row) (hkeys : NoTombstone keys)
    (h : fs.encryptForStorage row tenant opts draws keys = .ok (out, keys')) : StoreExt keys keys' := by
  obtain ⟨inner, -, hpersonal⟩ := encryptForStorage_ok hcovers h
  exact (encryptFields_spec rfl _ (collectPiiEncryptedFields_nodup fs.entity) (fun _ hname => hname)
    (fun _ _ _ key _ _ => hkeys key) hpersonal).2.2

/-- What the write path stores, field by field. -/
theorem FieldStorage.encryptForStorage_spec {source : EntityRow J} (hcovers : fs.Covers opts.onlyKeys row)
    (hsource : opts.subjectSource = some source) (hfallback : opts.ownerFallback = none)
    (hkeys : NoTombstone keys) (h : fs.encryptForStorage row tenant opts draws keys = .ok (out, keys')) :
    (∀ name, row name = none → out name = none) ∧
      ∀ name value, row name = some value → ∃ stored, out name = some stored ∧
        fs.StoredAs ⟨source, opts.keyTenantId.getD tenant⟩ keys' name value stored := by
  obtain ⟨inner, hinner, hpersonal⟩ := encryptForStorage_ok hcovers h
  have henvelope := encryptEntityFieldValues_spec hcovers hinner
  obtain ⟨hdone, hothers, -⟩ := encryptFields_spec rfl _ (collectPiiEncryptedFields_nodup fs.entity)
    (fun _ hname => hname) (fun _ _ _ key _ _ => hkeys key) hpersonal
  refine ⟨fun name hnone => ?_, fun name value hvalue => ?_⟩
  · rcases Classical.em (name ∈ collectPiiEncryptedFields fs.entity) with hmem | hmem
    · have hfield := hdone name hmem
      rwa [(henvelope name).1 hnone] at hfield
    · rw [hothers name hmem, (henvelope name).1 hnone]
  · obtain ⟨v, hv, henveloped⟩ := (henvelope name).2 value hvalue
    rcases Classical.em (name ∈ collectPiiEncryptedFields fs.entity) with hmem | hmem
    · have hfield := hdone name hmem
      rw [hv] at hfield
      cases hkept : isKept v with
      | true =>
        have hout : out name = some v := by simpa [FieldDone, hkept] using hfield
        exact ⟨v, hout, v, henveloped, by rw [if_neg (by simp [hkept])]⟩
      | false =>
        simp only [FieldDone, hkept, Bool.false_eq_true, if_false] at hfield
        obtain ⟨stored, hout, subject, subjectKey, dek, plaintext, text, henc⟩ := hfield
        refine ⟨stored, hout, v, henveloped, ?_⟩
        rw [if_pos ⟨hmem, hkept⟩]
        refine ⟨subject, ?_, _, rfl, rfl, rfl, subjectKey, dek, plaintext, text, henc⟩
        simpa [EncryptCall.subject, encryptCall, FieldStorage.subject, hsource, hfallback] using henc.subject_eq
    · exact ⟨v, by rw [hothers name hmem, hv], v, henveloped, by rw [if_neg (fun h => hmem h.1)]⟩

/-! ## What a reader gets -/

/-- A value of a text or reference field. -/
def TextOrAbsent (value : FieldValue J) : Prop := isAbsent value = true ∨ ∃ s, value = .text s

/-- What a reader gets of a stored value. -/
def FieldStorage.ReadsBack (fs : FieldStorage J) (name : String) (value back : FieldValue J) : Prop :=
  if isAbsent value then back = value
  else if name ∈ fs.encryptedFields then ∃ s, value = .text s ∧ back = .text (.of s.wellFormed)
  else if name ∈ collectPiiEncryptedFields fs.entity then
    if (fs.entity.field name).map (·.type) = some .jsonb then
      ∃ text, fs.json.stringify value = some text ∧ fs.json.parse text.wellFormed = some back
    else ∃ s, value = .text s ∧ back = .text (.of s.wellFormed)
  else back = value

/-- However often the value is stored and read, it is never absent and never taken for a ciphertext or for
the sentinel of an erased value. -/
def FieldStorage.Plain (fs : FieldStorage J) (name : String) (value : FieldValue J) : Prop :=
  ∀ back, Relation.ReflTransGen (fs.ReadsBack name) value back → isKept back = false

theorem FieldStorage.Plain.not_kept {name : String} {value : FieldValue J} (h : fs.Plain name value) :
    isKept value = false :=
  h value .refl

theorem FieldStorage.Plain.readsBack {value back : FieldValue J} (h : fs.Plain name value)
    (hback : fs.ReadsBack name value back) : fs.Plain name back :=
  fun last hlast => h last (.head hback hlast)

theorem FieldStorage.Plain.inner_not_kept {value inner : FieldValue J} (h : fs.Plain name value)
    (hinner : fs.Enveloped name value inner) : isKept inner = false := by
  unfold FieldStorage.Enveloped at hinner
  split at hinner
  · obtain ⟨scope, draw, s, -, rfl⟩ := hinner
    exact fs.envelope.not_kept scope draw s
  · rw [hinner]
    exact h.not_kept

/-- A field out of its envelope. -/
theorem EnvelopeCipher.openField_sealed {envelope : EnvelopeCipher} {scope scope' : Option String} {draw : Bytes}
    {s : JsText} {back : FieldValue J}
    (h : envelope.openField scope' name (.text (.of (envelope.encrypt scope draw s))) = .ok back) :
    back = .text (.of s.wellFormed) := by
  unfold EnvelopeCipher.openField at h
  split at h
  · rename_i text heq
    obtain rfl := FieldValue.text.inj heq
    split at h
    · cases h
    · rename_i opened hopened
      obtain rfl := Except.ok.inj h
      rw [envelope.decrypt_encrypt scope scope' draw s opened hopened]
  · rename_i hnot
    exact (hnot _ rfl).elim

/-- The personal half of reading, for a value that was stored encrypted. -/
theorem FieldStorage.KeyedTo.decryptField {value stored back : FieldValue J} {subject : SubjectId}
    (h : fs.KeyedTo keys name value stored subject)
    (hback : Kumiko.decryptField fs.aes fs.json keys name stored = .ok back) :
    if (fs.entity.field name).map (·.type) = some .jsonb then
      ∃ text, fs.json.stringify value = some text ∧ fs.json.parse text.wellFormed = some back
    else ∃ s, value = .text s ∧ back = .text (.of s.wellFormed) := by
  obtain ⟨call, haes, hjson, hentity, subjectKey, dek, plaintext, text, henc⟩ := h
  have hread := henc.read.2
  have hplain := henc.plaintext_eq
  rw [haes, hjson] at hread
  rw [hread] at hback
  rw [hjson] at hplain
  unfold plaintextOf at hplain
  unfold EncryptCall.isJsonbField at hback hplain
  rw [hentity] at hback hplain
  split
  · rename_i htype
    simp only [htype, decide_true, if_true] at hback hplain
    cases hs : fs.json.stringify value with
    | none => simp [hs] at hplain
    | some t =>
      obtain rfl : t = plaintext := by simpa [hs] using hplain
      refine ⟨t, rfl, ?_⟩
      cases hp : fs.json.parse t.wellFormed with
      | none => simp [hp] at hback
      | some v =>
        rw [hp] at hback
        exact congrArg some (Except.ok.inj hback)
  · rename_i htype
    simp only [htype, decide_false, Bool.false_eq_true, if_false] at hback hplain
    cases value with
    | text s =>
      obtain rfl : s = plaintext := Except.ok.inj hplain
      exact ⟨s, rfl, (Except.ok.inj hback).symm⟩
    | undefined => cases hplain
    | null => cases hplain
    | number _ => cases hplain
    | other _ => cases hplain

/-- The envelope half of reading. -/
theorem FieldStorage.openFields_spec {read : EntityRow J}
    (h : fs.envelope.decryptEntityFieldValues fs.encryptedFields read = .ok out) (name : String) :
    (name ∉ fs.encryptedFields → out name = read name) ∧ (read name = none → out name = none) ∧
      ∀ value, read name = some value → name ∈ fs.encryptedFields →
        ∃ back, fs.envelope.openField (scopeOf read) name value = .ok back ∧ out name = some back := by
  obtain ⟨hdone, hothers⟩ := mapFieldValues_spec fs.nodup h
  refine ⟨hothers name, fun hnone => ?_, fun value hvalue hmem => ?_⟩
  · rcases Classical.em (name ∈ fs.encryptedFields) with hmem | hmem
    · have hmapped := hdone name hmem
      rwa [hnone] at hmapped
    · rw [hothers name hmem, hnone]
  · have hmapped := hdone name hmem
    rw [hvalue] at hmapped
    exact hmapped

/-- The personal half of reading. -/
theorem FieldStorage.unlockFields_spec {read : EntityRow J}
    (h : decryptPiiFieldValues fs.aes fs.json keys (collectPiiSubjectFields fs.entity) row = .ok read)
    (hfile : name ∈ collectPiiSubjectFields fs.entity → name ∈ collectPiiEncryptedFields fs.entity) :
    (name ∉ collectPiiEncryptedFields fs.entity → read name = row name) ∧ (row name = none → read name = none) ∧
      ∀ stored, row name = some stored → name ∈ collectPiiEncryptedFields fs.entity →
        ∃ back, Kumiko.decryptField fs.aes fs.json keys name stored = .ok back ∧ read name = some back := by
  obtain ⟨hdone, hothers⟩ := (decryptFields_spec _ (collectPiiSubjectFields_nodup fs.entity)).mp h
  have hplain : name ∉ collectPiiEncryptedFields fs.entity → read name = row name :=
    fun hmem => hothers name fun hin => hmem (hfile hin)
  refine ⟨hplain, fun hnone => ?_, fun stored hstored hmem => ?_⟩
  · rcases Classical.em (name ∈ collectPiiEncryptedFields fs.entity) with hmem | hmem
    · have hfield := hdone name (collectPiiEncryptedFields_subset hmem)
      rw [hnone] at hfield
      exact (Except.ok.inj hfield).symm
    · rw [hplain hmem, hnone]
  · have hfield := hdone name (collectPiiEncryptedFields_subset hmem)
    rw [hstored, readField] at hfield
    cases hread : Kumiko.decryptField fs.aes fs.json keys name stored with
    | error e => simp [hread, Except.map] at hfield
    | ok back =>
      rw [hread] at hfield
      exact ⟨back, rfl, (Except.ok.inj hfield).symm⟩

/-- What a reader gets of the stored row, field by field. -/
theorem FieldStorage.decryptForRead_spec (h : fs.decryptForRead keys row = .ok out)
    (hfile : name ∈ collectPiiSubjectFields fs.entity → name ∈ collectPiiEncryptedFields fs.entity) :
    (row name = none → out name = none) ∧ ∀ stored, row name = some stored → ∀ keying value,
      fs.StoredAs keying keys name value stored →
      (name ∈ collectPiiEncryptedFields fs.entity → isAbsent value = true ∨ fs.Plain name value) →
      ∃ back, out name = some back ∧ fs.ReadsBack name value back := by
  unfold decryptForRead at h
  split at h
  · cases h
  · rename_i read hread
    obtain ⟨hplain, hnone, hunlock⟩ := unlockFields_spec hread hfile
    obtain ⟨hclosed, hnone', hopen⟩ := openFields_spec h name
    refine ⟨fun hrow => hnone' (hnone hrow), ?_⟩
    intro stored hstored keying value ⟨inner, hinner, hinto⟩ hvalue
    cases habsent : isAbsent value with
    | true =>
      -- an absent value is stored as it is and read as it is
      have hinner : inner = value := by simpa [Enveloped, habsent] using hinner
      have hnotkept : ¬ isKept inner = false := by simp [hinner, isKept, habsent]
      rw [if_neg fun h => hnotkept h.2, hinner] at hinto
      have hdecrypt : ∀ back, Kumiko.decryptField fs.aes fs.json keys name value = .ok back → back = value := by
        intro back hback
        cases value <;> simp [isAbsent] at habsent <;> exact (Except.ok.inj hback).symm
      have hreadvalue : read name = some value := by
        rcases Classical.em (name ∈ collectPiiEncryptedFields fs.entity) with hmem | hmem
        · obtain ⟨back, hback, hreadback⟩ := hunlock stored hstored hmem
          rw [hinto] at hback
          rw [hreadback, hdecrypt back hback]
        · rw [hplain hmem, hstored, hinto]
      refine ⟨value, ?_, by simp [ReadsBack, habsent]⟩
      rcases Classical.em (name ∈ fs.encryptedFields) with hmem | hmem
      · obtain ⟨back, hback, hout⟩ := hopen value hreadvalue hmem
        rw [hout]
        cases value <;> simp [isAbsent] at habsent <;> exact congrArg some (Except.ok.inj hback).symm
      · rw [hclosed hmem, hreadvalue]
    | false =>
      rcases Classical.em (name ∈ fs.encryptedFields) with hmem | hmem
      · -- the reader takes the envelope out and opens it
        obtain ⟨scope, draw, s, hs, hsealed⟩ : ∃ scope draw s, value = .text s ∧
            inner = .text (.of (fs.envelope.encrypt scope draw s)) := by
          simpa [Enveloped, hmem, habsent] using hinner
        have hreadinner : read name = some inner := by
          rcases Classical.em (name ∈ collectPiiEncryptedFields fs.entity) with hpersonal | hpersonal
          · rw [if_pos ⟨hpersonal, by rw [hsealed]; exact fs.envelope.not_kept scope draw s⟩] at hinto
            obtain ⟨subject, -, hkeyed⟩ := hinto
            obtain ⟨back, hback, hreadback⟩ := hunlock stored hstored hpersonal
            have htext := hkeyed.decryptField hback
            rw [fs.encrypted_text name hmem, if_neg (by simp), hsealed] at htext
            obtain ⟨s', hs', hback'⟩ := htext
            obtain rfl := FieldValue.text.inj hs'
            rw [hreadback, hback', hsealed]
            rfl
          · rw [if_neg fun h => hpersonal h.1] at hinto
            rw [hplain hpersonal, hstored, hinto]
        obtain ⟨back, hback, hout⟩ := hopen inner hreadinner hmem
        rw [hsealed] at hback
        refine ⟨back, hout, ?_⟩
        rw [ReadsBack, if_neg (by simp [habsent]), if_pos hmem]
        exact ⟨s, hs, EnvelopeCipher.openField_sealed hback⟩
      · have hsame : inner = value := by simpa [Enveloped, hmem] using hinner
        rcases Classical.em (name ∈ collectPiiEncryptedFields fs.entity) with hpersonal | hpersonal
        · have hkept : isKept inner = false := by
            rcases hvalue hpersonal with h' | h'
            · simp [habsent] at h'
            · exact h'.inner_not_kept hinner
          rw [if_pos ⟨hpersonal, hkept⟩] at hinto
          obtain ⟨subject, -, hkeyed⟩ := hinto
          obtain ⟨back, hback, hreadback⟩ := hunlock stored hstored hpersonal
          refine ⟨back, by rw [hclosed hmem, hreadback], ?_⟩
          rw [ReadsBack, if_neg (by simp [habsent]), if_neg hmem, if_pos hpersonal, ← hsame]
          exact hkeyed.decryptField hback
        · rw [if_neg fun h => hpersonal h.1] at hinto
          refine ⟨value, by rw [hclosed hmem, hplain hpersonal, hstored, hinto, hsame], ?_⟩
          rw [ReadsBack, if_neg (by simp [habsent]), if_neg hmem, if_neg hpersonal]

/-- A reader of a text field gets the same text, up to what UTF-8 keeps. -/
theorem FieldStorage.ReadsBack.text {value back : FieldValue J} (h : fs.ReadsBack name value back)
    (htype : (fs.entity.field name).map (·.type) = some .other) (hvalue : TextOrAbsent value) :
    TextOrAbsent back ∧ nonEmptyString back = nonEmptyString value := by
  unfold FieldStorage.ReadsBack at h
  rw [htype] at h
  split at h
  · obtain rfl := h
    exact ⟨hvalue, rfl⟩
  · split at h
    · obtain ⟨s, rfl, rfl⟩ := h
      exact ⟨.inr ⟨_, rfl⟩, rfl⟩
    · split at h
      · obtain ⟨s, rfl, rfl⟩ := h
        exact ⟨.inr ⟨_, rfl⟩, rfl⟩
      · obtain rfl := h
        exact ⟨hvalue, rfl⟩

theorem FieldStorage.ReadsBack.of_text {s : JsText} {back : FieldValue J}
    (h : fs.ReadsBack name (.text s) back) (htype : (fs.entity.field name).map (·.type) = some .other) :
    back = .text s ∨ back = .text (.of s.wellFormed) := by
  unfold FieldStorage.ReadsBack at h
  rw [htype, if_neg (by simp [isAbsent]), if_neg (c := some FieldType.other = some FieldType.jsonb) (by simp)] at h
  split at h
  · obtain ⟨t, heq, hback⟩ := h
    obtain rfl := FieldValue.text.inj heq
    exact .inr hback
  · split at h
    · obtain ⟨t, heq, hback⟩ := h
      obtain rfl := FieldValue.text.inj heq
      exact .inr hback
    · exact .inl h

/-- A text is plain if neither it nor what UTF-8 keeps of it is taken for something else. -/
theorem FieldStorage.plain_text {s : JsText}
    (htype : (fs.entity.field name).map (·.type) = some .other) (h : isKept (.text s : FieldValue J) = false)
    (h' : isKept (.text (.of s.wellFormed) : FieldValue J) = false) : fs.Plain name (.text s) := by
  intro back hback
  have hchain : back = .text s ∨ back = .text (.of s.wellFormed) := by
    induction hback with
    | refl => exact .inl rfl
    | tail _ hreads ih =>
      rcases ih with rfl | rfl
      · exact hreads.of_text htype
      · rcases hreads.of_text htype with rfl | rfl
        · exact .inr rfl
        · exact .inr rfl
  rcases hchain with rfl | rfl
  · exact h
  · exact h'

/-- The text names its subject. -/
theorem FieldStorage.KeyedTo.parse {subject : SubjectId}
    (h : fs.KeyedTo keys name value stored subject) : ∃ text subjectKey parsed, stored = .text (.of text) ∧
      isPiiCiphertext stored = true ∧ parseCiphertext text = .ok parsed ∧ parsed.subject = subject ∧
      subjectIdToKey subject = .ok subjectKey := by
  obtain ⟨call, -, -, -, subjectKey, dek, plaintext, text, henc⟩ := h
  obtain ⟨blob, htext, -⟩ := encryptValue_ok henc.text_eq
  obtain ⟨hcipher, hparse⟩ := parse_stored (J := J) henc.key_eq blob (call.isJsonbField name) htext
  exact ⟨text, subjectKey, _, henc.stored_eq, by rw [henc.stored_eq]; exact hcipher, hparse, rfl, henc.key_eq⟩

/-- Once the key of its subject is erased, nobody reads the value. -/
theorem FieldStorage.KeyedTo.erased {subject : SubjectId}
    (h : fs.KeyedTo keys name value stored subject) {subjectKey : String}
    (hkey : subjectIdToKey subject = .ok subjectKey) {keys' : KeyStore} (herased : keys' subjectKey = some .erased) :
    Kumiko.decryptField fs.aes fs.json keys' name stored = .ok piiErasedSentinel := by
  obtain ⟨text, -, parsed, rfl, hcipher, hparse, rfl, -⟩ := h.parse
  have hget : keys'.getKey subjectKey = .error (.keyErased subjectKey) := by
    rw [KeyStore.getKey, herased]
  rw [JsText.of] at hcipher
  simp only [Kumiko.decryptField, hcipher, Bool.not_true, Bool.false_eq_true, if_false, JsText.of, hparse, hkey,
    hget]

end

end Kumiko
