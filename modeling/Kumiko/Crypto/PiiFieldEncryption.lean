import Kumiko.Crypto.SubjectResolver
import Kumiko.Library.Base64

/-!
# Personal fields at rest

`crypto/pii-field-encryption.ts` and `pii-ciphertext-format.ts`. A personal value is stored as text that names
its subject, `kumiko-pii:v2:<subject key>:<base64>`, or `v3` for a jsonb value. Whether a value is already
encrypted is read off its text too, so one that looks so is stored as it came (`not_pii_round_trip`);
`pii_round_trip_iff` is the exact condition.
-/

namespace Kumiko

variable {J : Type*} {name : String} {value stored : FieldValue J} {subjectKey : String}

/-! ## The format -/

def piiCiphertextPrefixV1 : String := "kumiko-pii:v1:"

def piiCiphertextPrefix : String := "kumiko-pii:v2:"

def piiCiphertextPrefixJson : String := "kumiko-pii:v3:"

/-- Reference: `PII_ERASED_SENTINEL`. -/
def piiErasedSentinel : FieldValue J := .text (.of "[[erased]]")

/-- Reference: `isPiiCiphertext`. -/
def isPiiCiphertext : FieldValue J → Bool
  | .text s =>
    startsWith piiCiphertextPrefix s.wellFormed || startsWith piiCiphertextPrefixJson s.wellFormed ||
      startsWith piiCiphertextPrefixV1 s.wellFormed
  | _ => false

/-- `value === PII_ERASED_SENTINEL` -/
def isErasedSentinel : FieldValue J → Bool
  | .text s => s = .of "[[erased]]"
  | _ => false

/-- `value === null || value === undefined` -/
def isAbsent : FieldValue J → Bool
  | .null => true
  | .undefined => true
  | _ => false

/-- Reference: `IV_LENGTH`. -/
def piiIvLength : ℕ := 12

/-- Reference: `AUTH_TAG_LENGTH`. -/
def piiAuthTagLength : ℕ := 16

/-- Reference: `DEK_LENGTH`. -/
def dekLength : ℕ := 32

/-- The random bytes of one encryption. -/
abbrev Iv := { iv : Bytes // iv.length = piiIvLength }

/-- `aes-256-gcm` of `node:crypto` with additional data, on texts: a plaintext goes in and comes out as UTF-8,
which determines its well-formed text. The additional data of `v1` is absent. -/
structure AesGcmAad where
  /-- The ciphertext and the tag for a key, an initialisation vector, additional data and a plaintext. -/
  encipher : Bytes → Bytes → String → String → Bytes × Bytes
  /-- The plaintext for a key, an initialisation vector, additional data, a ciphertext and its tag. -/
  decipher : Bytes → Bytes → Option String → Bytes → Bytes → Option String
  tag_length : ∀ dek iv aad plaintext, (encipher dek iv aad plaintext).2.length = piiAuthTagLength
  decipher_encipher : ∀ dek iv aad plaintext,
    decipher dek iv (some aad) (encipher dek iv aad plaintext).1 (encipher dek iv aad plaintext).2 =
      some plaintext

/-- `JSON.stringify`, `none` where it returns `undefined`, and `JSON.parse`, `none` where it throws. -/
structure Json (J : Type*) where
  stringify : FieldValue J → Option JsText
  parse : String → Option (FieldValue J)

/-- The errors of the two directions. -/
inductive PiiError where
  | notAString (field : String)
  | notSerializable (field : String)
  | subjectResolution (error : SubjectResolutionError)
  | invalidSubject (message : String)
  | keyNotFound (subjectKey : String)
  | keyErased (subjectKey : String)
  | encryptionUnavailable
  | ciphertextCorrupt (field : String)

/-! ## The key store -/

/-- The entry of a subject: its key, or the tombstone. Reference: `InMemoryKmsAdapter`. -/
inductive KeyEntry where
  | live (dek : Bytes)
  | erased

/-- The entries by subject key. -/
abbrev KeyStore := String → Option KeyEntry

/-- Reference: `getKey`. -/
def KeyStore.getKey (store : KeyStore) (subjectKey : String) : Except PiiError Bytes :=
  match store subjectKey with
  | none => .error (.keyNotFound subjectKey)
  | some .erased => .error (.keyErased subjectKey)
  | some (.live dek) => .ok dek

/-- The key and the store behind it; `fresh` are the bytes of the key that is created if there is none.
Reference: `getOrCreateDek`. -/
def KeyStore.getOrCreateDek (store : KeyStore) (subjectKey : String) (fresh : Bytes) :
    Except PiiError (Bytes × KeyStore) :=
  match store subjectKey with
  | none => .ok (fresh, Function.update store subjectKey (some (.live fresh)))
  | some .erased => .error (.keyErased subjectKey)
  | some (.live dek) => .ok (dek, store)

/-! ## One value -/

/-- Reference: `buildAad`. -/
def buildAad (subjectKey field : String) (isJson : Bool) : String :=
  subjectKey ++ "|" ++ field ++ (if isJson then "|json" else "")

/-- The stored text for a plaintext. Reference: `encryptValue`. -/
def encryptValue (aes : AesGcmAad) (subjectKey : String) (dek : Bytes) (iv : Iv) (plaintext : JsText)
    (field : String) (isJson : Bool) : Except PiiError String :=
  if dek.length ≠ dekLength then .error .encryptionUnavailable
  else
    let (ciphertext, tag) := aes.encipher dek iv (buildAad subjectKey field isJson) plaintext.wellFormed
    let blob := iv ++ tag ++ ciphertext
    .ok ((if isJson then piiCiphertextPrefixJson else piiCiphertextPrefix) ++ subjectKey ++ ":" ++
      .ofList (Base64.encode blob))

/-- Reference: `ParsedCiphertext`. -/
structure ParsedCiphertext where
  subject : SubjectId
  blob : Bytes
  hasAad : Bool
  isJson : Bool

/-- The two sides of the last colon. -/
def splitAtLastColon (text : List Char) : Option (List Char × List Char) :=
  if ':' ∈ text then
    let back := text.reverse
    some ((back.dropWhile (· ≠ ':')).tail.reverse, (back.takeWhile (· ≠ ':')).reverse)
  else none

/-- Reference: `parseCiphertext`. -/
def parseCiphertext (value : String) : Except String ParsedCiphertext :=
  let isJson := startsWith piiCiphertextPrefixJson value
  let hasAad := isJson || startsWith piiCiphertextPrefix value
  let start := if isJson then piiCiphertextPrefixJson
    else if hasAad then piiCiphertextPrefix else piiCiphertextPrefixV1
  match splitAtLastColon (value.toList.drop start.toList.length) with
  | none => .error "Malformed PII ciphertext (no subject/blob separator)"
  | some (subjectKey, blob) =>
    (subjectIdFromKey (.ofList subjectKey)).map fun subject =>
      ⟨subject, Base64.decode blob, hasAad, isJson⟩

/-- Reference: `decryptValue`. -/
def decryptValue (aes : AesGcmAad) (dek blob : Bytes) (subjectKey field : String) (hasAad isJson : Bool) :
    Except PiiError String :=
  if dek.length ≠ dekLength then .error .encryptionUnavailable
  else
    let iv := blob.take piiIvLength
    let tag := (blob.drop piiIvLength).take piiAuthTagLength
    let ciphertext := blob.drop (piiIvLength + piiAuthTagLength)
    match aes.decipher dek iv (if hasAad then some (buildAad subjectKey field isJson) else none)
        ciphertext tag with
    | some plaintext => .ok plaintext
    | none => .error (.ciphertextCorrupt field)

/-! ## One field -/

/-- Reference: `ErasedSubjectHandling`; `none` is the default, the error. -/
inductive ErasedSubjectHandling where
  | sentinel
  deriving DecidableEq

/-- Reference: `EncryptPiiOptions`. -/
structure EncryptPiiOptions (J : Type*) where
  onlyKeys : Option (List String)
  tenantId : Option String
  subjectSource : Option (EntityRow J)
  entityName : String
  ownerFallback : Option (EntityRow J)
  onErasedSubject : Option ErasedSubjectHandling

/-- What the encryption of a field draws: the vector, and the bytes of a key it may create. -/
structure FieldRandom where
  iv : Iv
  dek : Bytes

/-- The text that is encrypted. Reference: `serializeJsonbValue`. -/
def plaintextOf (json : Json J) (isJsonbField : Bool) (name : String) (value : FieldValue J) :
    Except PiiError JsText :=
  if isJsonbField then
    match json.stringify value with
    | none => .error (.notSerializable name)
    | some text => .ok text
  else
    match value with
    | .text s => .ok s
    | _ => .error (.notAString name)

/-- The surroundings of one call of `encryptPiiFieldValues`. -/
structure EncryptCall (J : Type*) where
  aes : AesGcmAad
  json : Json J
  entity : EntityDefinition
  row : EntityRow J
  opts : EncryptPiiOptions J
  random : String → FieldRandom

def EncryptCall.isJsonbField (call : EncryptCall J) (name : String) : Bool :=
  ((call.entity.field name).map (·.type)) = some .jsonb

/-- The subject of a field. -/
def EncryptCall.subject (call : EncryptCall J) (name : String) :
    Except SubjectResolutionError (Option SubjectId) :=
  resolveSubjectForField call.entity name (call.opts.subjectSource.getD call.row)
    ⟨call.opts.tenantId, call.opts.entityName, call.opts.ownerFallback, false⟩

/-- The encryption of a value that is neither absent nor taken for a ciphertext. -/
def EncryptCall.encrypt (call : EncryptCall J) (name : String) (value : FieldValue J) (store : KeyStore) :
    Except PiiError (FieldValue J × KeyStore) :=
  match plaintextOf call.json (call.isJsonbField name) name value with
  | .error e => .error e
  | .ok plaintext =>
    match call.subject name with
    | .error e => .error (.subjectResolution e)
    | .ok none => .ok (value, store)
    | .ok (some subject) =>
      match subjectIdToKey subject with
      | .error message => .error (.invalidSubject message)
      | .ok subjectKey =>
        match store.getOrCreateDek subjectKey (call.random name).dek with
        | .error (.keyErased key) =>
          if call.opts.onErasedSubject = some .sentinel then .ok (piiErasedSentinel, store)
          else .error (.keyErased key)
        | .error e => .error e
        | .ok (dek, store) =>
          match encryptValue call.aes subjectKey dek (call.random name).iv plaintext name
              (call.isJsonbField name) with
          | .error e => .error e
          | .ok text => .ok (.text (.of text), store)

/-- A value the encryption leaves alone. -/
def isKept (value : FieldValue J) : Bool :=
  isAbsent value || isPiiCiphertext value || isErasedSentinel value

/-- The body of the loop of `encryptPiiFieldValues`. -/
def EncryptCall.encryptField (call : EncryptCall J) (name : String) (out : EntityRow J) (store : KeyStore) :
    Except PiiError (EntityRow J × KeyStore) :=
  if call.opts.onlyKeys.any (name ∉ ·) then .ok (out, store)
  else
    match out name with
    | none => .ok (out, store)
    | some value =>
      if isKept value then .ok (out, store)
      else
        match call.encrypt name value store with
        | .error e => .error e
        | .ok (value, store) => .ok (Function.update out name (some value), store)

def EncryptCall.encryptFields (call : EncryptCall J) :
    List String → EntityRow J → KeyStore → Except PiiError (EntityRow J × KeyStore)
  | [], out, store => .ok (out, store)
  | name :: names, out, store =>
    match call.encryptField name out store with
    | .error e => .error e
    | .ok (out, store) => call.encryptFields names out store

/-- Reference: `encryptPiiFieldValues`. -/
def EncryptCall.encryptPiiFieldValues (call : EncryptCall J) (piiFields : List String) (store : KeyStore) :
    Except PiiError (EntityRow J × KeyStore) :=
  call.encryptFields piiFields call.row store

/-- The value a reader gets of a stored one. -/
def decryptField (aes : AesGcmAad) (json : Json J) (store : KeyStore) (name : String) (value : FieldValue J) :
    Except PiiError (FieldValue J) :=
  match value with
  | .text s =>
    if !isPiiCiphertext value then .ok value
    else
      match parseCiphertext s.wellFormed with
      | .error _ => .error (.ciphertextCorrupt name)
      | .ok parsed =>
        match subjectIdToKey parsed.subject with
        | .error message => .error (.invalidSubject message)
        | .ok subjectKey =>
          match store.getKey subjectKey with
          | .error (.keyErased _) => .ok piiErasedSentinel
          | .error e => .error e
          | .ok dek =>
            match decryptValue aes dek parsed.blob subjectKey name parsed.hasAad parsed.isJson with
            | .error e => .error e
            | .ok plain =>
              if parsed.isJson then
                match json.parse plain with
                | none => .error (.ciphertextCorrupt name)
                | some value => .ok value
              else .ok (.text (.of plain))
  | _ => .ok value

/-- Reference: `decryptPiiFieldValues`. -/
def decryptPiiFieldValues (aes : AesGcmAad) (json : Json J) (store : KeyStore) :
    List String → EntityRow J → Except PiiError (EntityRow J)
  | [], out => .ok out
  | name :: names, out =>
    match out name with
    | none => decryptPiiFieldValues aes json store names out
    | some value =>
      match decryptField aes json store name value with
      | .error e => .error e
      | .ok value => decryptPiiFieldValues aes json store names (Function.update out name (some value))

/-! ## A stored text is read back -/

theorem splitAtLastColon_append (front : List Char) {back : List Char} (h : ':' ∉ back) :
    splitAtLastColon (front ++ ':' :: back) = some (front, back) := by
  have hback : ∀ c ∈ back.reverse, decide (c ≠ ':') = true := fun c hc => by
    refine decide_eq_true ?_
    rintro rfl
    exact h (List.mem_reverse.mp hc)
  have hrev : (front ++ ':' :: back).reverse = back.reverse ++ ':' :: front.reverse := by simp
  rw [splitAtLastColon, if_pos (by simp)]
  simp only [hrev]
  rw [List.dropWhile_append_of_pos hback, List.takeWhile_append_of_pos hback]
  simp

/-- The shape of a stored text. -/
theorem encryptValue_ok {aes : AesGcmAad} {dek : Bytes} {iv : Iv} {plaintext : JsText}
    {field : String} {isJson : Bool} {text : String}
    (h : encryptValue aes subjectKey dek iv plaintext field isJson = .ok text) :
    ∃ blob, text = (if isJson then piiCiphertextPrefixJson else piiCiphertextPrefix) ++ subjectKey ++ ":" ++
        .ofList (Base64.encode blob) ∧
      decryptValue aes dek blob subjectKey field true isJson = .ok plaintext.wellFormed := by
  unfold encryptValue at h
  split at h
  · cases h
  · rename_i hdek
    refine ⟨_, (Except.ok.inj h).symm, ?_⟩
    rw [decryptValue, if_neg hdek]
    have hiv : (iv : Bytes).length = piiIvLength := iv.2
    have htag := aes.tag_length dek iv (buildAad subjectKey field isJson) plaintext.wellFormed
    have hcut : ∀ (a b c : Bytes), a.length = piiIvLength → b.length = piiAuthTagLength →
        (a ++ b ++ c).take piiIvLength = a ∧
        ((a ++ b ++ c).drop piiIvLength).take piiAuthTagLength = b ∧
        (a ++ b ++ c).drop (piiIvLength + piiAuthTagLength) = c := by
      intro a b c ha hb
      refine ⟨?_, ?_, ?_⟩
      · rw [List.append_assoc, ← ha, List.take_left]
      · rw [List.append_assoc, ← ha, List.drop_left, ← hb, List.take_left]
      · rw [← ha, ← hb, ← List.length_append, List.drop_left]
    obtain ⟨h1, h2, h3⟩ := hcut _ _ (aes.encipher dek iv (buildAad subjectKey field isJson)
      plaintext.wellFormed).1 hiv htag
    simp only [h1, h2, h3, if_true]
    rw [aes.decipher_encipher]

/-- A stored text starts as a ciphertext, and parses into its subject and its blob. -/
theorem parse_stored {subject : SubjectId} (hkey : subjectIdToKey subject = .ok subjectKey)
    (blob : Bytes) (isJson : Bool) {text : String}
    (htext : text = (if isJson then piiCiphertextPrefixJson else piiCiphertextPrefix) ++ subjectKey ++ ":" ++
      .ofList (Base64.encode blob)) :
    isPiiCiphertext (.text (.of text) : FieldValue J) = true ∧
      parseCiphertext text = .ok ⟨subject, blob, true, isJson⟩ := by
  have hsplit := splitAtLastColon_append subjectKey.toList (Base64.colon_not_mem blob)
  have hsubject := subjectIdFromKey_of_toKey hkey
  subst htext
  cases isJson with
  | true =>
    have hstart : startsWith piiCiphertextPrefixJson (piiCiphertextPrefixJson ++ subjectKey ++ ":" ++
        .ofList (Base64.encode blob)) = true := by
      simp [startsWith, piiCiphertextPrefixJson, List.isPrefixOf]
    refine ⟨by simp [isPiiCiphertext, JsText.of, hstart], ?_⟩
    have hdrop : (piiCiphertextPrefixJson ++ subjectKey ++ ":" ++ String.ofList (Base64.encode blob)).toList.drop
        piiCiphertextPrefixJson.toList.length = subjectKey.toList ++ ':' :: Base64.encode blob := by
      simp [piiCiphertextPrefixJson]
    simp only [if_true, parseCiphertext, hstart, Bool.true_or, hdrop, hsplit, String.ofList_toList, hsubject,
      Except.map, Base64.decode_encode]
  | false =>
    have hstart : startsWith piiCiphertextPrefix (piiCiphertextPrefix ++ subjectKey ++ ":" ++
        .ofList (Base64.encode blob)) = true := by
      simp [startsWith, piiCiphertextPrefix, List.isPrefixOf]
    have hjson : startsWith piiCiphertextPrefixJson (piiCiphertextPrefix ++ subjectKey ++ ":" ++
        .ofList (Base64.encode blob)) = false := by
      simp [startsWith, piiCiphertextPrefix, piiCiphertextPrefixJson, List.isPrefixOf]
    refine ⟨by simp [isPiiCiphertext, JsText.of, hstart], ?_⟩
    have hdrop : (piiCiphertextPrefix ++ subjectKey ++ ":" ++ String.ofList (Base64.encode blob)).toList.drop
        piiCiphertextPrefix.toList.length = subjectKey.toList ++ ':' :: Base64.encode blob := by
      simp [piiCiphertextPrefix]
    simp only [Bool.false_eq_true, if_false, if_true, parseCiphertext, hstart, hjson, Bool.false_or, hdrop,
      hsplit, String.ofList_toList, hsubject, Except.map, Base64.decode_encode]

/-! ## What the encryption does to a field -/

/-- The stored value is an encryption of the row's under a live key of the field's subject. -/
structure Encrypted (call : EncryptCall J) (store : KeyStore) (name : String) (value stored : FieldValue J)
    (subject : SubjectId) (subjectKey : String) (dek : Bytes) (plaintext : JsText) (text : String) : Prop where
  subject_eq : call.subject name = .ok (some subject)
  key_eq : subjectIdToKey subject = .ok subjectKey
  live : store subjectKey = some (.live dek)
  plaintext_eq : plaintextOf call.json (call.isJsonbField name) name value = .ok plaintext
  text_eq : encryptValue call.aes subjectKey dek (call.random name).iv plaintext name
    (call.isJsonbField name) = .ok text
  stored_eq : stored = .text (.of text)

/-- `Encrypted`, for some subject. -/
def IsEncrypted (call : EncryptCall J) (store : KeyStore) (name : String) (value stored : FieldValue J) : Prop :=
  ∃ subject subjectKey dek plaintext text,
    Encrypted call store name value stored subject subjectKey dek plaintext text

/-- The store only gained keys. -/
structure StoreExt (store store' : KeyStore) : Prop where
  live : ∀ key dek, store key = some (.live dek) → store' key = some (.live dek)
  erased : ∀ key, store' key = some .erased → store key = some .erased

theorem StoreExt.refl (store : KeyStore) : StoreExt store store :=
  ⟨fun _ _ h => h, fun _ h => h⟩

theorem StoreExt.trans {s₁ s₂ s₃ : KeyStore} (h₁ : StoreExt s₁ s₂) (h₂ : StoreExt s₂ s₃) : StoreExt s₁ s₃ :=
  ⟨fun key dek h => h₂.live key dek (h₁.live key dek h), fun key h => h₁.erased key (h₂.erased key h)⟩

variable {call : EncryptCall J}

theorem IsEncrypted.ext {store store' : KeyStore}
    (h : IsEncrypted call store name value stored) (hext : StoreExt store store') :
    IsEncrypted call store' name value stored := by
  obtain ⟨subject, subjectKey, dek, plaintext, text, h⟩ := h
  exact ⟨subject, subjectKey, dek, plaintext, text, { h with live := hext.live _ _ h.live }⟩

/-- No subject of the row has been erased. -/
def KeysExist (call : EncryptCall J) (piiFields : List String) (store : KeyStore) : Prop :=
  ∀ name ∈ piiFields, ∀ subject key, call.subject name = .ok (some subject) →
    subjectIdToKey subject = .ok key → store key ≠ some .erased

theorem getOrCreateDek_spec {store : KeyStore} {key : String} {fresh dek : Bytes} {store' : KeyStore}
    (h : store.getOrCreateDek key fresh = .ok (dek, store')) :
    store' key = some (.live dek) ∧ StoreExt store store' := by
  unfold KeyStore.getOrCreateDek at h
  split at h
  · rename_i hnone
    obtain ⟨rfl, rfl⟩ := Prod.mk.inj (Except.ok.inj h)
    refine ⟨Function.update_self .., ?_, ?_⟩
    · intro key' dek' hlive
      have hne : key' ≠ key := by
        rintro rfl
        simp [hnone] at hlive
      rw [Function.update_of_ne hne]
      exact hlive
    · intro key' herased
      rcases eq_or_ne key' key with rfl | hne
      · simp at herased
      · rwa [Function.update_of_ne hne] at herased
  · cases h
  · rename_i hlive
    obtain ⟨rfl, rfl⟩ := Prod.mk.inj (Except.ok.inj h)
    exact ⟨hlive, StoreExt.refl store⟩

theorem encrypt_spec {store store' : KeyStore} (h : call.encrypt name value store = .ok (stored, store'))
    (hname : name ∈ collectPiiEncryptedFields call.entity)
    (hkeys : ∀ subject key, call.subject name = .ok (some subject) → subjectIdToKey subject = .ok key →
      store key ≠ some .erased) :
    IsEncrypted call store' name value stored ∧ StoreExt store store' := by
  unfold EncryptCall.encrypt at h
  split at h
  · cases h
  · rename_i plaintext hplain
    split at h
    · cases h
    · rename_i hsubject
      exact (resolveSubjectForField_ne_none hname _ _ hsubject).elim
    · rename_i subject hsubject
      split at h
      · cases h
      · rename_i subjectKey hkey
        split at h
        · -- the tombstone was there before, which the row's keys exclude
          rename_i key herased
          have hstore : store subjectKey = some .erased := by
            unfold KeyStore.getOrCreateDek at herased
            split at herased
            · cases herased
            · rename_i hstore
              exact hstore
            · cases herased
          exact (hkeys subject subjectKey hsubject hkey hstore).elim
        · cases h
        · rename_i dek store₁ hdek
          split at h
          · cases h
          · rename_i text htext
            obtain ⟨rfl, rfl⟩ := Prod.mk.inj (Except.ok.inj h)
            obtain ⟨hlive, hext⟩ := getOrCreateDek_spec hdek
            exact ⟨⟨subject, subjectKey, dek, plaintext, text, hsubject, hkey, hlive, hplain, htext, rfl⟩, hext⟩

/-- What the loop makes of a field. -/
def FieldDone (call : EncryptCall J) (store : KeyStore) (name : String) :
    Option (FieldValue J) → Option (FieldValue J) → Prop
  | none, stored => stored = none
  | some value, stored =>
    if isKept value then stored = some value
    else ∃ v, stored = some v ∧ IsEncrypted call store name value v

theorem FieldDone.ext {store store' : KeyStore}
    {value stored : Option (FieldValue J)} (h : FieldDone call store name value stored)
    (hext : StoreExt store store') : FieldDone call store' name value stored := by
  cases value with
  | none => exact h
  | some value =>
    cases hkept : isKept value with
    | true => simpa [FieldDone, hkept] using h
    | false =>
      simp only [FieldDone, hkept, Bool.false_eq_true, if_false] at h ⊢
      obtain ⟨v, hv, henc⟩ := h
      exact ⟨v, hv, henc.ext hext⟩

theorem encryptField_spec {out out' : EntityRow J} {store store' : KeyStore} (honly : call.opts.onlyKeys = none)
    (h : call.encryptField name out store = .ok (out', store')) (hname : name ∈ collectPiiEncryptedFields call.entity)
    (hkeys : ∀ subject key, call.subject name = .ok (some subject) → subjectIdToKey subject = .ok key →
      store key ≠ some .erased) :
    FieldDone call store' name (out name) (out' name) ∧ (∀ other, other ≠ name → out' other = out other) ∧
      StoreExt store store' := by
  unfold EncryptCall.encryptField at h
  rw [honly] at h
  simp only [Option.any_none, Bool.false_eq_true, if_false] at h
  split at h
  · rename_i hnone
    obtain ⟨rfl, rfl⟩ := Prod.mk.inj (Except.ok.inj h)
    exact ⟨by rw [hnone]; rfl, fun _ _ => rfl, StoreExt.refl store⟩
  · rename_i value hvalue
    split at h
    · rename_i hkept
      obtain ⟨rfl, rfl⟩ := Prod.mk.inj (Except.ok.inj h)
      refine ⟨?_, fun _ _ => rfl, StoreExt.refl store⟩
      simp [hvalue, FieldDone, hkept]
    · rename_i hkept
      split at h
      · cases h
      · rename_i stored store₁ henc
        obtain ⟨rfl, rfl⟩ := Prod.mk.inj (Except.ok.inj h)
        obtain ⟨hstored, hext⟩ := encrypt_spec henc hname hkeys
        refine ⟨?_, fun other hne => Function.update_of_ne hne .., hext⟩
        simp only [hvalue, FieldDone, hkept]
        exact ⟨stored, Function.update_self .., hstored⟩

theorem encryptFields_spec (honly : call.opts.onlyKeys = none) :
    ∀ (names : List String) {out out' : EntityRow J} {store store' : KeyStore}, names.Nodup →
      (∀ name ∈ names, name ∈ collectPiiEncryptedFields call.entity) → KeysExist call names store →
      call.encryptFields names out store = .ok (out', store') →
      (∀ name ∈ names, FieldDone call store' name (out name) (out' name)) ∧
        (∀ name, name ∉ names → out' name = out name) ∧ StoreExt store store'
  | [], out, out', store, store', _, _, _, h => by
    obtain ⟨rfl, rfl⟩ := Prod.mk.inj (Except.ok.inj h)
    exact ⟨(fun _ hname => nomatch hname), fun _ _ => rfl, StoreExt.refl store⟩
  | name :: names, out, out', store, store', hnodup, hnames, hkeys, h => by
    obtain ⟨hnotin, hnodup⟩ := List.nodup_cons.mp hnodup
    unfold EncryptCall.encryptFields at h
    split at h
    · cases h
    · rename_i out₁ store₁ hfield
      obtain ⟨hdone, hothers, hext⟩ := encryptField_spec honly hfield (hnames name List.mem_cons_self)
        (hkeys name List.mem_cons_self)
      have hkeys' : KeysExist call names store₁ := fun other hother subject key hsubject hkey herased =>
        hkeys other (List.mem_cons_of_mem _ hother) subject key hsubject hkey (hext.erased key herased)
      obtain ⟨hrest, hkept, hext'⟩ := encryptFields_spec honly names hnodup
        (fun other hother => hnames other (List.mem_cons_of_mem _ hother)) hkeys' h
      refine ⟨?_, ?_, hext.trans hext'⟩
      · intro other hother
        rcases List.mem_cons.mp hother with rfl | hmem
        · rw [hkept other hnotin]
          exact hdone.ext hext'
        · have hne : other ≠ name := fun heq => hnotin (heq ▸ hmem)
          rw [← hothers other hne]
          exact hrest other hmem
      · intro other hother
        obtain ⟨hne, hother⟩ := not_or.mp (fun h => hother (List.mem_cons.mpr h))
        rw [hkept other hother, hothers other hne]

/-! ## What the decryption does to a field -/

/-- A field of the row a reader gets. -/
def readField (aes : AesGcmAad) (json : Json J) (store : KeyStore) (name : String) :
    Option (FieldValue J) → Except PiiError (Option (FieldValue J))
  | none => .ok none
  | some value => (decryptField aes json store name value).map some

/-- The loop reads every field by itself. -/
theorem decryptFields_spec {aes : AesGcmAad} {json : Json J} {store : KeyStore} :
    ∀ (names : List String) {out row : EntityRow J}, names.Nodup →
      (decryptPiiFieldValues aes json store names out = .ok row ↔
        (∀ name ∈ names, readField aes json store name (out name) = .ok (row name)) ∧
          ∀ name, name ∉ names → row name = out name)
  | [], out, row, _ => by
    constructor
    · intro h
      obtain rfl : out = row := Except.ok.inj h
      exact ⟨(fun _ hname => nomatch hname), fun _ _ => rfl⟩
    · rintro ⟨-, h⟩
      exact congrArg Except.ok (funext fun name => (h name List.not_mem_nil).symm)
  | name :: names, out, row, hnodup => by
    obtain ⟨hnotin, hnodup⟩ := List.nodup_cons.mp hnodup
    have hsplit (first : EntityRow J) (hfirst : ∀ other, other ≠ name → first other = out other) :
        ((∀ other ∈ names, readField aes json store other (first other) = .ok (row other)) ∧
            ∀ other, other ∉ names → row other = first other) ↔
          (∀ other ∈ names, readField aes json store other (out other) = .ok (row other)) ∧
            row name = first name ∧ ∀ other, other ∉ name :: names → row other = out other := by
      have hne : ∀ other ∈ names, other ≠ name := by
        rintro other hother rfl
        exact hnotin hother
      constructor
      · rintro ⟨hread, hkeep⟩
        refine ⟨fun other hother => ?_, hkeep name hnotin, fun other hother => ?_⟩
        · rw [← hfirst other (hne other hother)]
          exact hread other hother
        · obtain ⟨hne', hother⟩ := not_or.mp (fun h => hother (List.mem_cons.mpr h))
          rw [hkeep other hother, hfirst other hne']
      · rintro ⟨hread, hname, hkeep⟩
        refine ⟨fun other hother => ?_, fun other hother => ?_⟩
        · rw [hfirst other (hne other hother)]
          exact hread other hother
        · rcases eq_or_ne other name with rfl | hne'
          · exact hname
          · rw [hfirst other hne']
            exact hkeep other (fun h => (List.mem_cons.mp h).elim hne' hother)
    rw [List.forall_mem_cons]
    unfold decryptPiiFieldValues
    cases hvalue : out name with
    | none =>
      simp only [readField, Except.ok.injEq]
      rw [decryptFields_spec names hnodup, hsplit out fun _ _ => rfl, hvalue]
      exact ⟨fun ⟨h1, h2, h3⟩ => ⟨⟨h2.symm, h1⟩, h3⟩, fun ⟨⟨h2, h1⟩, h3⟩ => ⟨h1, h2.symm, h3⟩⟩
    | some value =>
      cases hread : decryptField aes json store name value with
      | error e => simp [readField, hread, Except.map]
      | ok read =>
        simp only [readField, hread, Except.map, Except.ok.injEq]
        rw [decryptFields_spec names hnodup,
          hsplit _ (fun other hne => Function.update_of_ne hne ..), Function.update_self]
        exact ⟨fun ⟨h1, h2, h3⟩ => ⟨⟨h2.symm, h1⟩, h3⟩, fun ⟨⟨h2, h1⟩, h3⟩ => ⟨h1, h2.symm, h3⟩⟩

/-- What a reader gets of an encrypted value: its plaintext, or for a jsonb field what that parses to. -/
theorem Encrypted.read {store : KeyStore} {subject : SubjectId} {dek : Bytes} {plaintext : JsText} {text : String}
    (h : Encrypted call store name value stored subject subjectKey dek plaintext text) :
    isPiiCiphertext stored = true ∧ decryptField call.aes call.json store name stored =
      if call.isJsonbField name then
        match call.json.parse plaintext.wellFormed with
        | none => .error (.ciphertextCorrupt name)
        | some value => .ok value
      else .ok (.text (.of plaintext.wellFormed)) := by
  obtain ⟨blob, htext, hdecrypt⟩ := encryptValue_ok h.text_eq
  obtain ⟨hcipher, hparse⟩ := parse_stored (J := J) h.key_eq blob (call.isJsonbField name) htext
  have hget : store.getKey subjectKey = .ok dek := by
    rw [KeyStore.getKey, h.live]
  rw [h.stored_eq]
  refine ⟨hcipher, ?_⟩
  rw [JsText.of] at hcipher
  simp only [decryptField, hcipher, Bool.not_true, Bool.false_eq_true, if_false, JsText.of, hparse, h.key_eq,
    hget, hdecrypt]

theorem encryptFields_kept {store : KeyStore} {out : EntityRow J} :
    ∀ {names : List String}, (∀ name ∈ names, ∀ value, out name = some value → isKept value = true) →
      call.encryptFields names out store = .ok (out, store)
  | [], _ => rfl
  | name :: names, h => by
    have hfield : call.encryptField name out store = .ok (out, store) := by
      unfold EncryptCall.encryptField
      split
      · rfl
      · cases hvalue : out name with
        | none => rfl
        | some value => simp [h name List.mem_cons_self value hvalue]
    rw [EncryptCall.encryptFields, hfield]
    exact encryptFields_kept fun other hother => h other (List.mem_cons_of_mem _ hother)

/-- A field as the write path leaves it is left alone by the next encryption. -/
theorem FieldDone.kept {store : KeyStore} {value : Option (FieldValue J)}
    {stored : FieldValue J} (h : FieldDone call store name value (some stored)) : isKept stored = true := by
  cases value with
  | none => cases h
  | some value =>
    cases hkept : isKept value with
    | true =>
      obtain rfl : stored = value := by simpa [FieldDone, hkept] using h
      exact hkept
    | false =>
      simp only [FieldDone, hkept, Bool.false_eq_true, if_false] at h
      obtain ⟨v, hv, _, _, _, _, _, henc⟩ := h
      cases hv
      simp [isKept, henc.read.1]

/-! ## The round trip -/

/-- What the encryption of a row promises: a reader gets the row back, encrypting what is stored changes
nothing, and every personal value is stored encrypted. -/
structure PiiRoundTrip (call : EncryptCall J) (out : EntityRow J) (store : KeyStore) : Prop where
  decrypts : decryptPiiFieldValues call.aes call.json store (collectPiiEncryptedFields call.entity) out =
    .ok call.row
  reencrypts : ∀ random, EncryptCall.encryptPiiFieldValues { call with row := out, random := random }
    (collectPiiEncryptedFields call.entity) store = .ok (out, store)
  hidden : ∀ name ∈ collectPiiEncryptedFields call.entity, ∀ value, call.row name = some value →
    isAbsent value = false →
    ∃ stored, out name = some stored ∧ stored ≠ value ∧ IsEncrypted call store name value stored

/-- A value that survives its way through UTF-8, or through JSON for a jsonb field. -/
def Survives (call : EncryptCall J) (name : String) (value : FieldValue J) : Prop :=
  if call.isJsonbField name then
    ∃ text, call.json.stringify value = some text ∧ call.json.parse text.wellFormed = some value
  else ∃ s, value = .text s ∧ s.lone = []

/-- No personal value of the row reads as a ciphertext or as the erased sentinel, and each survives. -/
def PlainRow (call : EncryptCall J) : Prop :=
  ∀ name ∈ collectPiiEncryptedFields call.entity, ∀ value, call.row name = some value →
    isAbsent value = false →
    isPiiCiphertext value = false ∧ isErasedSentinel value = false ∧ Survives call name value

/-- An encrypted value is read back as itself exactly if it survives. -/
theorem Encrypted.read_iff {store : KeyStore} {subject : SubjectId} {dek : Bytes} {plaintext : JsText} {text : String}
    (h : Encrypted call store name value stored subject subjectKey dek plaintext text) :
    decryptField call.aes call.json store name stored = .ok value ↔ Survives call name value := by
  rw [h.read.2]
  have hplain := h.plaintext_eq
  unfold plaintextOf at hplain
  unfold Survives
  cases hjson : call.isJsonbField name with
  | true =>
    simp only [hjson, if_true] at hplain ⊢
    cases hs : call.json.stringify value with
    | none => simp [hs] at hplain
    | some t =>
      obtain rfl : t = plaintext := by simpa [hs] using hplain
      cases hp : call.json.parse t.wellFormed <;> simp [hp]
  | false =>
    simp only [hjson, Bool.false_eq_true, if_false] at hplain ⊢
    cases value with
    | text s =>
      obtain rfl : s = plaintext := Except.ok.inj hplain
      obtain ⟨wellFormed, lone⟩ := s
      simp [JsText.of, eq_comm]
    | undefined => cases hplain
    | null => cases hplain
    | number _ => cases hplain
    | other _ => cases hplain

section

variable {call : EncryptCall J} {out : EntityRow J} {store store' : KeyStore}

/-- The row an accepted write stores, field by field. -/
theorem stored_fields (honly : call.opts.onlyKeys = none)
    (hkeys : KeysExist call (collectPiiEncryptedFields call.entity) store)
    (h : call.encryptPiiFieldValues (collectPiiEncryptedFields call.entity) store = .ok (out, store')) :
    (∀ name ∈ collectPiiEncryptedFields call.entity, FieldDone call store' name (call.row name) (out name)) ∧
      ∀ name, name ∉ collectPiiEncryptedFields call.entity → out name = call.row name := by
  obtain ⟨hdone, hothers, -⟩ := encryptFields_spec honly _ (collectPiiEncryptedFields_nodup call.entity)
    (fun _ hname => hname) hkeys h
  exact ⟨hdone, hothers⟩

/-- A value the encryption leaves alone reaches storage as it came. -/
theorem PiiRoundTrip.not_kept (hdone : ∀ name ∈ collectPiiEncryptedFields call.entity,
      FieldDone call store' name (call.row name) (out name))
    (h : PiiRoundTrip call out store') {name : String} (hname : name ∈ collectPiiEncryptedFields call.entity)
    {value : FieldValue J} (hvalue : call.row name = some value) (hpresent : isAbsent value = false) :
    isPiiCiphertext value = false ∧ isErasedSentinel value = false := by
  obtain ⟨stored, hstored, hne, -⟩ := h.hidden name hname value hvalue hpresent
  have hfield := hdone name hname
  rw [hvalue, hstored] at hfield
  cases hkept : isKept value with
  | true =>
    have heq : stored = value := by simpa [FieldDone, hkept] using hfield
    exact (hne heq).elim
  | false =>
    simpa [isKept, hpresent] using hkept

theorem PiiRoundTrip.plainRow (honly : call.opts.onlyKeys = none)
    (hkeys : KeysExist call (collectPiiEncryptedFields call.entity) store)
    (hrun : call.encryptPiiFieldValues (collectPiiEncryptedFields call.entity) store = .ok (out, store'))
    (h : PiiRoundTrip call out store') : PlainRow call := by
  obtain ⟨hdone, -⟩ := stored_fields honly hkeys hrun
  intro name hname value hvalue hpresent
  obtain ⟨hcipher, hsentinel⟩ := h.not_kept hdone hname hvalue hpresent
  refine ⟨hcipher, hsentinel, ?_⟩
  obtain ⟨stored, hstored, -, _, _, _, _, _, henc⟩ := h.hidden name hname value hvalue hpresent
  have hread := ((decryptFields_spec _ (collectPiiEncryptedFields_nodup call.entity)).mp h.decrypts).1 name hname
  rw [hstored, hvalue, readField] at hread
  refine henc.read_iff.mp ?_
  cases hd : decryptField call.aes call.json store' name stored with
  | error e => simp [hd, Except.map] at hread
  | ok v =>
    obtain rfl : v = value := by simpa [hd, Except.map] using hread
    rfl

theorem PlainRow.roundTrip (honly : call.opts.onlyKeys = none)
    (hkeys : KeysExist call (collectPiiEncryptedFields call.entity) store)
    (hrun : call.encryptPiiFieldValues (collectPiiEncryptedFields call.entity) store = .ok (out, store'))
    (h : PlainRow call) : PiiRoundTrip call out store' := by
  obtain ⟨hdone, hothers⟩ := stored_fields honly hkeys hrun
  -- a present value is stored encrypted, as nothing about it makes the encryption skip it
  have hencrypted : ∀ name ∈ collectPiiEncryptedFields call.entity, ∀ value, call.row name = some value →
      isAbsent value = false → ∃ stored, out name = some stored ∧ IsEncrypted call store' name value stored := by
    intro name hname value hvalue hpresent
    obtain ⟨hcipher, hsentinel, -⟩ := h name hname value hvalue hpresent
    have hfield := hdone name hname
    have hkept : isKept value = false := by simp [isKept, hpresent, hcipher, hsentinel]
    simpa [hvalue, FieldDone, hkept] using hfield
  refine ⟨?_, ?_, ?_⟩
  · refine (decryptFields_spec _ (collectPiiEncryptedFields_nodup call.entity)).mpr ⟨?_, fun name hname =>
      (hothers name hname).symm⟩
    intro name hname
    cases hvalue : call.row name with
    | none =>
      have hfield := hdone name hname
      rw [hvalue] at hfield
      rw [show out name = none from hfield]
      rfl
    | some value =>
      cases hpresent : isAbsent value with
      | true =>
        have hfield := hdone name hname
        have hstored : out name = some value := by
          simpa [hvalue, FieldDone, isKept, hpresent] using hfield
        rw [hstored]
        cases value <;> simp [isAbsent] at hpresent <;> rfl
      | false =>
        obtain ⟨stored, hstored, _, _, _, _, _, henc⟩ := hencrypted name hname value hvalue hpresent
        rw [hstored, readField, henc.read_iff.mpr (h name hname value hvalue hpresent).2.2]
        rfl
  · intro random
    refine encryptFields_kept fun name hname stored hstored => ?_
    have hfield := hdone name hname
    rw [show out name = some stored from hstored] at hfield
    exact hfield.kept
  · intro name hname value hvalue hpresent
    obtain ⟨stored, hstored, henc⟩ := hencrypted name hname value hvalue hpresent
    refine ⟨stored, hstored, ?_, henc⟩
    rintro rfl
    obtain ⟨_, _, _, _, _, henc⟩ := henc
    have hplain := (h name hname stored hvalue hpresent).1
    simp [henc.read.1] at hplain

end

/-- **An accepted row makes the round trip if and only if it is plain**, while no subject of its fields has
been erased. -/
theorem pii_round_trip_iff (call : EncryptCall J) (store store' : KeyStore) (out : EntityRow J)
    (honly : call.opts.onlyKeys = none)
    (hkeys : KeysExist call (collectPiiEncryptedFields call.entity) store)
    (hrun : call.encryptPiiFieldValues (collectPiiEncryptedFields call.entity) store = .ok (out, store')) :
    PiiRoundTrip call out store' ↔ PlainRow call :=
  ⟨PiiRoundTrip.plainRow honly hkeys hrun, PlainRow.roundTrip honly hkeys hrun⟩

/-! ### A person's name -/

/-- Three bytes a character. -/
def charBytes (text : List Char) : Bytes :=
  text.flatMap fun c => [.ofNat (c.toNat / 65536), .ofNat (c.toNat / 256 % 256), .ofNat (c.toNat % 256)]

def bytesChars : Bytes → List Char
  | a :: b :: c :: rest => Char.ofNat (a.toNat * 65536 + b.toNat * 256 + c.toNat) :: bytesChars rest
  | _ => []

theorem bytesChars_charBytes (text : List Char) : bytesChars (charBytes text) = text := by
  induction text with
  | nil => rfl
  | cons c text ih =>
    have hc : c.toNat < 1114112 := by
      rcases c.valid with h | h
      · exact Nat.lt_trans h (by decide)
      · exact h.2
    have hsum : (UInt8.ofNat (c.toNat / 65536)).toNat * 65536 + (UInt8.ofNat (c.toNat / 256 % 256)).toNat * 256 +
        (UInt8.ofNat (c.toNat % 256)).toNat = c.toNat := by
      simp only [UInt8.toNat_ofNat']
      omega
    rw [charBytes, List.flatMap_cons]
    simp only [List.cons_append, List.nil_append, bytesChars, hsum, Char.ofNat_toNat]
    exact congrArg (c :: ·) ih

/-- A cipher that hides nothing in the place of `aes-256-gcm`, with a tag of zeros. -/
def nullCipher : AesGcmAad where
  encipher _ _ _ plaintext := (charBytes plaintext.toList, List.replicate 16 0)
  decipher _ _ _ ciphertext _ := some (.ofList (bytesChars ciphertext))
  tag_length _ _ _ _ := rfl
  decipher_encipher _ _ _ plaintext := by
    simp only [bytesChars_charBytes, String.ofList_toList]

/-- No jsonb field below is written, so nothing is serialised. -/
def noJson : Json Empty := ⟨fun _ => none, fun _ => none⟩

/-- A user with a name and a plain field. -/
def userEntity : EntityDefinition where
  fields := [("displayName", ⟨.other, true, false, none, false⟩), ("role", ⟨.other, false, false, none, false⟩)]
  nodup := by decide

/-- The write of a user row with this name. -/
def writeUser (displayName : JsText) : EncryptCall Empty where
  aes := nullCipher
  json := noJson
  entity := userEntity
  row := fun name =>
    if name = "id" then some (.text (.of "u1"))
    else if name = "displayName" then some (.text displayName)
    else none
  opts := ⟨none, none, none, "user", none, none⟩
  random := fun _ => ⟨⟨List.replicate 12 0, rfl⟩, List.replicate 32 7⟩

theorem keysExist_empty (names : List String) : KeysExist call names fun _ => none := by
  intro name _ subject key _ _ h
  cases h

/-- A name that nobody takes for a ciphertext. -/
theorem pii_round_trip_ada : ∃ out store,
    (writeUser (.of "Ada")).encryptPiiFieldValues ["displayName"] (fun _ => none) = .ok (out, store) ∧
      PiiRoundTrip (writeUser (.of "Ada")) out store := by
  have hrun : ∃ out store, (writeUser (.of "Ada")).encryptPiiFieldValues
      (collectPiiEncryptedFields userEntity) (fun _ => none) = .ok (out, store) := ⟨_, _, rfl⟩
  obtain ⟨out, store, hrun⟩ := hrun
  refine ⟨out, store, hrun, ?_⟩
  refine (pii_round_trip_iff _ _ _ _ rfl (keysExist_empty _) hrun).mpr ?_
  intro name hname value hvalue _
  obtain rfl : name = "displayName" := List.mem_singleton.mp hname
  obtain rfl : FieldValue.text (.of "Ada") = value := Option.some.inj hvalue
  exact ⟨by decide, by decide, .of "Ada", rfl, rfl⟩

/-- A user called `kumiko-pii:v2:hello` is stored under that name. -/
theorem not_pii_round_trip :
    ¬ ∀ (call : EncryptCall Empty) (store store' : KeyStore) (out : EntityRow Empty),
      call.opts.onlyKeys = none → KeysExist call (collectPiiEncryptedFields call.entity) store →
      call.encryptPiiFieldValues (collectPiiEncryptedFields call.entity) store = .ok (out, store') →
      PiiRoundTrip call out store' := by
  intro h
  have htrip := h (writeUser (.of "kumiko-pii:v2:hello")) (fun _ => none) (fun _ => none) _ rfl
    (keysExist_empty _) rfl
  obtain ⟨stored, hstored, hne, -⟩ := htrip.hidden "displayName" (by decide) _ rfl rfl
  exact hne (Option.some.inj (hstored.symm.trans rfl))

end Kumiko
