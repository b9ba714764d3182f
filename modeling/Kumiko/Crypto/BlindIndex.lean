import Kumiko.Crypto.PiiFieldEncryption
import Kumiko.Db.ListFilter

/-!
# The blind index

`crypto/blind-index.ts` and its rewrite in `db/where-clause.ts`. A second column holds the HMAC of the
plaintext, and an equality asks both columns: the value finds plaintext rows from before the encryption, its
HMAC the encrypted ones. A list is not rewritten and finds plaintext rows only (`not_list_is_union`).
-/

namespace Kumiko

variable {J : Type}

/-! ## Computing the index -/

/-- Reference: `BLIND_INDEX_PREFIX`. -/
def blindIndexPrefix : String := "kumiko-bidx:v1:"

/-- What a process is configured with: the two ciphers, `JSON`, the digest
`createHmac("sha256", key).update(plaintext, "utf8").digest("base64url")`, and the blind-index key and the
subject keys if it has them. -/
structure PiiProcess (J : Type) where
  aes : AesGcmAad
  json : Json J
  hmac : Bytes → String → String
  /-- Reference: `configuredBlindIndexKey`. -/
  bidxKey : Option Bytes
  /-- Reference: `configuredPiiSubjectKms`. -/
  kms : Option KeyStore

namespace PiiProcess

variable (proc : PiiProcess J)

/-- Reference: `computeBlindIndex`. -/
def computeBlindIndex (key : Bytes) (plaintext : JsText) : String :=
  blindIndexPrefix ++ proc.hmac key plaintext.wellFormed

/-- Reference: `blindIndexForValue`. -/
def blindIndexForValue (key : Bytes) (field : String) (value : FieldValue J) :
    Except PiiError (Option String) :=
  match value with
  | .text s =>
    if isErasedSentinel value then .ok none
    else if !isPiiCiphertext value then .ok (some (proc.computeBlindIndex key s))
    else
      match proc.kms with
      | none => .ok none
      | some store =>
        match decryptField proc.aes proc.json store field value with
        | .error e => .error e
        | .ok (.text plain) =>
          if isErasedSentinel (.text plain : FieldValue J) then .ok none
          else .ok (some (proc.computeBlindIndex key plain))
        | .ok _ => .ok none
  | _ => .ok none

/-- Reference: `blindIndexFieldName`. -/
def blindIndexFieldName (fieldName : String) : String := fieldName ++ "Bidx"

/-- The index columns of the lookupable fields among the values, by name. Reference:
`computeBlindIndexValues`. -/
def computeBlindIndexValues (values : EntityRow J) : List String → Except PiiError (List (String × Option String))
  | [] => .ok []
  | name :: names =>
    match proc.bidxKey, values name with
    | some key, some value =>
      match proc.blindIndexForValue key name value with
      | .error e => .error e
      | .ok index => (computeBlindIndexValues values names).map fun out => (blindIndexFieldName name, index) :: out
    | _, _ => computeBlindIndexValues values names

/-- What a reader of the process gets of a stored value. Without subject keys it is the text as stored. -/
def readValue (field : String) (value : FieldValue J) : Except PiiError (FieldValue J) :=
  match proc.kms with
  | none => .ok value
  | some store => decryptField proc.aes proc.json store field value

/-- The environment of a where clause in this process. -/
def filterEnv (env : FilterEnv) : FilterEnv :=
  { env with computeBlindIndex := proc.bidxKey.map fun key text => proc.computeBlindIndex key (.of text) }

end PiiProcess

/-! ## The rows -/

/-- The two columns of the field in a row. -/
structure LookupRow where
  stored : Option String
  bidx : Option String

namespace LookupRow

/-- The value of the field's column. -/
def value (row : LookupRow) : FieldValue J :=
  match row.stored with
  | none => .null
  | some s => .text (.of s)

/-- The row as the where clause reads it. -/
def filterRow {S : Type} (scalar : String → S) (row : LookupRow) : FilterRow S :=
  ⟨row.stored.map fun s => .scalar (scalar s), row.bidx, some true⟩

/-- A `NULL` or a plaintext from before the index, or a value with the index the applier computes; an
encrypted value has one. -/
def InMix (proc : PiiProcess J) (key : Bytes) (field : String) (row : LookupRow) : Prop :=
  (isPiiCiphertext (row.value : FieldValue J) = false ∧ row.bidx = none) ∨
    (proc.blindIndexForValue key field row.value = .ok row.bidx ∧
      (isPiiCiphertext (row.value : FieldValue J) = true → row.bidx ≠ none))

/-- The field reads as the text. -/
def ReadsAs (proc : PiiProcess J) (field : String) (row : LookupRow) (text : String) : Prop :=
  ∃ s : JsText, proc.readValue field row.value = .ok (.text s) ∧ s.wellFormed = text

end LookupRow

/-- How Postgres compares the texts of a column: byte by byte. -/
structure TextColumn (pg : Postgres) (scalar : String → pg.Scalar) : Prop where
  accepts : ∀ s, pg.accepts .text .eq (.raw (.str s)) = true
  compare : ∀ s q, pg.compare .text .eq (.scalar (scalar s)) (.raw (.str q)) = some (s == q)
  accepts_null : pg.accepts .text .eq (.raw .null) = true
  compare_null : ∀ s, pg.compare .text .eq (.scalar (scalar s)) (.raw .null) = none

/-- Whether the condition on the field selects the row; `none` is an error. -/
def lookupSelects (pg : Postgres) (scalar : String → pg.Scalar) (env : FilterEnv) (c : FilterColumn)
    (row : LookupRow) (value : FilterValue) : Option Bool :=
  (conditionsForValue env c value).bind (SqlCondition.selected pg env c.pgType (row.filterRow scalar))

section
variable {proc : PiiProcess J} {key : Bytes} {field q : String} {row : LookupRow} {pg : Postgres}
  {scalar : String → pg.Scalar} {env : FilterEnv} {c : FilterColumn}

/-! ## What an encrypted row reads as -/

/-- The index of a ciphertext is that of the text it decrypts to. -/
theorem PiiProcess.blindIndex_of_ciphertext {value : FieldValue J} {index : String}
    (hcipher : isPiiCiphertext value = true) (h : proc.blindIndexForValue key field value = .ok (some index)) :
    ∃ plain : JsText, proc.readValue field value = .ok (.text plain) ∧
      index = proc.computeBlindIndex key plain := by
  cases value with
  | undefined | null | number | other => cases h
  | text s =>
    simp only [blindIndexForValue, hcipher, Bool.not_true, Bool.false_eq_true, if_false] at h
    cases hsentinel : isErasedSentinel (.text s : FieldValue J) with
    | true => simp [hsentinel] at h
    | false =>
      rw [hsentinel, if_neg Bool.false_ne_true] at h
      cases hkms : proc.kms with
      | none => simp [hkms] at h
      | some store =>
        simp only [hkms] at h
        split at h
        · cases h
        · next plain hplain =>
          split at h
          · cases h
          · exact ⟨plain, by rw [readValue, hkms]; exact hplain, (Option.some.inj (Except.ok.inj h)).symm⟩
        · cases h

/-- A value that is no ciphertext reads as it is. -/
theorem PiiProcess.readValue_of_plain {value : FieldValue J} (h : isPiiCiphertext value = false) :
    proc.readValue field value = .ok value := by
  unfold readValue
  split
  · rfl
  · cases value with
    | text s => simp [decryptField, h]
    | undefined | null | number | other => rfl

/-- The index of a plaintext is `NULL` or that of the text itself. -/
theorem PiiProcess.blindIndex_of_plain {s : String} {index : Option String}
    (hplain : isPiiCiphertext (.text (.of s) : FieldValue J) = false)
    (h : proc.blindIndexForValue key field (.text (.of s)) = .ok index) :
    index = none ∨ index = some (proc.computeBlindIndex key (.of s)) := by
  simp only [blindIndexForValue, hplain, Bool.not_false, if_true] at h
  split at h
  · exact .inl (Except.ok.inj h).symm
  · exact .inr (Except.ok.inj h).symm

/-- What the two columns of a row of the mix say of the text the field reads as. -/
theorem LookupRow.InMix.cases (h : row.InMix proc key field) :
    (row.stored = none ∧ row.bidx = none) ∨
    (∃ s, row.stored = some s ∧ isPiiCiphertext (.text (.of s) : FieldValue J) = false ∧
      (row.bidx = none ∨ row.bidx = some (proc.computeBlindIndex key (.of s)))) ∨
    ∃ s plain, row.stored = some s ∧ isPiiCiphertext (.text (.of s) : FieldValue J) = true ∧
      row.bidx = some (proc.computeBlindIndex key plain) ∧
      proc.readValue field (.text (.of s) : FieldValue J) = .ok (.text plain) := by
  obtain ⟨stored, bidx⟩ := row
  cases stored with
  | none =>
    refine .inl ⟨rfl, ?_⟩
    rcases h with ⟨-, hnone⟩ | ⟨hindex, -⟩
    · exact hnone
    · exact (Except.ok.inj hindex).symm
  | some s =>
    right
    cases hcipher : isPiiCiphertext (.text (.of s) : FieldValue J) with
    | false =>
      refine .inl ⟨s, rfl, hcipher, ?_⟩
      rcases h with ⟨-, hnone⟩ | ⟨hindex, -⟩
      · exact .inl hnone
      · exact PiiProcess.blindIndex_of_plain hcipher hindex
    | true =>
      rcases h with ⟨hplain, -⟩ | ⟨hindex, hsome⟩
      · exact absurd (hcipher.symm.trans hplain) (by decide)
      · obtain ⟨index, rfl⟩ := Option.ne_none_iff_exists'.1 (hsome hcipher)
        obtain ⟨plain, hread, rfl⟩ := PiiProcess.blindIndex_of_ciphertext hcipher hindex
        exact .inr ⟨s, plain, rfl, hcipher, rfl, hread⟩

/-! ## What the conditions select -/

/-- The column of the field. -/
structure BlindIndexed (c : FilterColumn) : Prop where
  hasBidx : c.hasBidx = true
  /-- The field's own column does not have the suffix that is reserved for indexes. -/
  namedBidx : c.namedBidx = false

theorem BlindIndexed.pgType (h : BlindIndexed c) : c.pgType = .text := c.hasBidx_text h.hasBidx

theorem selected_one {row : FilterRow pg.Scalar} {a : SqlCondition} (h : a.accepted pg .text = true) :
    SqlCondition.selected pg env .text row [a] = some (a.truth pg env .text row).holds := by
  simp [SqlCondition.selected, h]

/-- The stored text equals the string. -/
theorem holds_stored (hpg : TextColumn pg scalar) :
    (SqlCondition.truth pg env .text (row.filterRow scalar) (.compare .eq (.raw (.str q)))).holds =
      decide (row.stored = some q) := by
  obtain ⟨stored, bidx⟩ := row
  cases stored with
  | none => rfl
  | some s =>
    simp only [SqlCondition.truth, LookupRow.filterRow, Option.map_some, Option.bind_some, hpg.compare,
      Truth.holds_some, Option.some.injEq]
    rw [Bool.eq_iff_iff, beq_iff_eq, decide_eq_true_iff]

/-- The index is that of the string. -/
theorem holds_blindIndex (hkey : proc.bidxKey = some key) :
    (SqlCondition.truth pg (proc.filterEnv env) .text (row.filterRow scalar) (.blindIndex q)).holds =
      decide (row.bidx = some (proc.computeBlindIndex key (.of q))) := by
  obtain ⟨stored, bidx⟩ := row
  cases bidx with
  | none => rfl
  | some index =>
    simp only [SqlCondition.truth, LookupRow.filterRow, PiiProcess.filterEnv, hkey, Option.map_some,
      Truth.holds_compare_some, Option.some.injEq]
    rw [Bool.eq_iff_iff, beq_iff_eq, decide_eq_true_iff]

/-- With a key, an equality with a string asks both columns. -/
theorem lookupSelects_str (env : FilterEnv) (hc : BlindIndexed c) (hpg : TextColumn pg scalar)
    (hkey : proc.bidxKey = some key) :
    lookupSelects pg scalar (proc.filterEnv env) c row (.str q) =
      some (decide (row.stored = some q) || decide (row.bidx = some (proc.computeBlindIndex key (.of q)))) := by
  have hconditions : conditionsForValue (proc.filterEnv env) c (.str q) =
      some [.or (.compare .eq (.raw (.str q))) (.blindIndex q)] := by
    simp [conditionsForValue, equalityCondition, prepareValue, PiiProcess.filterEnv, hkey, hc.pgType,
      hc.hasBidx, hc.namedBidx, PgType.isTimestamptz]
  rw [lookupSelects, hconditions, hc.pgType, Option.bind_some, selected_one]
  · rw [SqlCondition.truth, Truth.holds_or, holds_stored hpg, holds_blindIndex hkey]
  · simp [SqlCondition.accepted, hpg.accepts]

theorem lookupSelects_null (hc : BlindIndexed c) :
    lookupSelects pg scalar env c row .null = some (decide (row.stored = none)) := by
  rw [lookupSelects, conditionsForValue, hc.pgType, Option.bind_some, selected_one rfl]
  obtain ⟨stored, bidx⟩ := row
  cases stored <;> rfl

/-- The values of a list on a text field: strings and `null`. -/
def textValue : Option String → FilterValue
  | none => .null
  | some q => .str q

/-- The stored text is one of the list. -/
theorem holds_oneOf (hpg : TextColumn pg scalar) (qs : List (Option String)) :
    (SqlCondition.truth pg env .text (row.filterRow scalar)
      (.oneOf ((qs.map textValue).map (prepareValue env .text)))).holds =
      decide (∃ s, row.stored = some s ∧ some s ∈ qs) := by
  obtain ⟨stored, bidx⟩ := row
  cases stored with
  | none =>
    simp [SqlCondition.truth, LookupRow.filterRow]
  | some s =>
    have heach : ∀ q : Option String,
        (pg.compare .text .eq (.scalar (scalar s)) (prepareValue env .text (textValue q))).holds =
          decide (q = some s) := by
      intro q
      cases q with
      | none => simp [textValue, prepareValue, hpg.compare_null]
      | some q =>
        simp only [textValue, prepareValue, PgType.isTimestamptz, Bool.false_eq_true, if_false, hpg.compare,
          Truth.holds_some, Option.some.injEq]
        rw [Bool.eq_iff_iff, beq_iff_eq, decide_eq_true_iff, eq_comm]
    simp only [SqlCondition.truth, LookupRow.filterRow, Option.map_some, Option.bind_some,
      SqlCondition.truthOneOf, Truth.holds_any, List.any_map, List.map_map]
    rw [Bool.eq_iff_iff, List.any_eq_true, decide_eq_true_iff]
    simp [heach]

/-- A list asks the field's column only, as an array and under `in` alike. -/
theorem lookupSelects_list (env : FilterEnv) (row : LookupRow) (hc : BlindIndexed c) (hpg : TextColumn pg scalar)
    (qs : List (Option String)) :
    lookupSelects pg scalar env c row (.arr (qs.map textValue)) =
      some (decide (∃ s, row.stored = some s ∧ some s ∈ qs)) ∧
    lookupSelects pg scalar env c row (.obj [("in", .arr (qs.map textValue))]) =
      some (decide (∃ s, row.stored = some s ∧ some s ∈ qs)) := by
  have haccepted : qs ≠ [] →
      (SqlCondition.oneOf ((qs.map textValue).map (prepareValue env .text))).accepted pg .text = true := by
    intro hne
    simp only [SqlCondition.accepted, Bool.and_eq_true, List.all_eq_true, List.mem_map]
    refine ⟨by simp [hne], ?_⟩
    rintro _ ⟨_, ⟨q, -, rfl⟩, rfl⟩
    cases q with
    | none => exact hpg.accepts_null
    | some q => simpa [textValue, prepareValue, PgType.isTimestamptz] using hpg.accepts q
  have hconditions : conditionsForValue env c (.obj [("in", .arr (qs.map textValue))]) =
      conditionsForValue env c (.arr (qs.map textValue)) := by
    cases qs <;> simp [conditionsForValue, isWhereOperator, operatorKeys, operatorConditions, emitJsonText,
      comparisonEmitter, emitNotEqual, emitIn, emitNotIn, arrayCondition, hc.pgType, List.lookup_cons]
  have harr : lookupSelects pg scalar env c row (.arr (qs.map textValue)) =
      some (decide (∃ s, row.stored = some s ∧ some s ∈ qs)) := by
    rw [lookupSelects, conditionsForValue, arrayCondition, hc.pgType, Option.bind_some]
    by_cases hempty : qs = []
    · subst hempty
      simp [SqlCondition.selected, SqlCondition.accepted, SqlCondition.truth]
    · rw [if_neg (by simp [hempty]), if_neg (by decide), selected_one (haccepted hempty), holds_oneOf hpg]
  exact ⟨harr, by rw [lookupSelects, hconditions]; exact harr⟩

/-! ## The lookup -/

theorem PiiProcess.computeBlindIndex_inj (hinj : Function.Injective (proc.hmac key)) {s s' : JsText} :
    proc.computeBlindIndex key s = proc.computeBlindIndex key s' ↔ s.wellFormed = s'.wellFormed := by
  constructor
  · intro h
    exact hinj (String.append_right_inj blindIndexPrefix |>.1 h)
  · intro h
    rw [computeBlindIndex, computeBlindIndex, h]

/-- A plaintext reads as itself. -/
theorem LookupRow.readsAs_of_plain {s : String} (hs : row.stored = some s)
    (hplain : isPiiCiphertext (.text (.of s) : FieldValue J) = false) : row.ReadsAs proc field q ↔ s = q := by
  have hread : proc.readValue field (row.value : FieldValue J) = .ok (.text (.of s)) := by
    rw [LookupRow.value, hs]
    exact PiiProcess.readValue_of_plain hplain
  constructor
  · rintro ⟨t, ht, rfl⟩
    rw [hread] at ht
    cases ht
    rfl
  · rintro rfl
    exact ⟨.of s, hread, rfl⟩

/-- The two columns together say what the field reads as. -/
theorem LookupRow.InMix.lookup (h : row.InMix proc key field) (hinj : Function.Injective (proc.hmac key))
    (hq : row.stored = some q → isPiiCiphertext (.text (.of q) : FieldValue J) = false) :
    (row.stored = some q ∨ row.bidx = some (proc.computeBlindIndex key (.of q))) ↔ row.ReadsAs proc field q := by
  rcases h.cases with ⟨hs, hbidx⟩ | ⟨s, hs, hplain, hbidx⟩ | ⟨s, plain, hs, hcipher, hbidx, hread⟩
  · simp only [hs, hbidx, reduceCtorEq, or_self, false_iff]
    rintro ⟨t, ht, -⟩
    rw [LookupRow.value, hs, PiiProcess.readValue_of_plain rfl] at ht
    cases ht
  · -- the index of a plaintext adds nothing to the text itself
    rw [LookupRow.readsAs_of_plain hs hplain, hs, Option.some.injEq, or_iff_left_of_imp]
    intro hindex
    rcases hbidx with hnone | hsome
    · rw [hnone] at hindex
      cases hindex
    · rw [hsome, Option.some.injEq, PiiProcess.computeBlindIndex_inj hinj] at hindex
      exact hindex
  · have hne : row.stored ≠ some q := by
      intro heq
      obtain rfl : s = q := Option.some.inj (hs.symm.trans heq)
      exact absurd (hcipher.symm.trans (hq hs)) (by decide)
    rw [or_iff_right hne, hbidx, Option.some.injEq, PiiProcess.computeBlindIndex_inj hinj]
    constructor
    · intro heq
      exact ⟨plain, by rw [LookupRow.value, hs]; exact hread, heq⟩
    · rintro ⟨t, ht, rfl⟩
      rw [LookupRow.value, hs] at ht
      cases hread.symm.trans ht
      rfl

/-- A field reads as `null` where the column is `NULL`. -/
theorem LookupRow.InMix.reads_null (h : row.InMix proc key field) :
    row.stored = none ↔ proc.readValue field (row.value : FieldValue J) = .ok .null := by
  rcases h.cases with ⟨hs, -⟩ | ⟨s, hs, hplain, -⟩ | ⟨s, plain, hs, -, -, hread⟩
  · simp only [hs, true_iff, LookupRow.value]
    exact PiiProcess.readValue_of_plain rfl
  · simp [hs, LookupRow.value, PiiProcess.readValue_of_plain hplain]
  · simp [hs, LookupRow.value, hread]

/-- What an encryption and the applier leave behind: a ciphertext that reads as the plaintext, with the
index of the plaintext. -/
theorem PiiProcess.blindIndex_of_encrypted (proc : PiiProcess J) (key : Bytes) {store : KeyStore}
    {subject : SubjectId} {subjectKey : String} {dek : Bytes} {iv : Iv} {plaintext : JsText} {text : String} (hkms : proc.kms = some store)
    (hsubject : subjectIdToKey subject = .ok subjectKey) (hlive : store subjectKey = some (.live dek))
    (htext : encryptValue proc.aes subjectKey dek iv plaintext field false = .ok text)
    (hsentinel : plaintext.wellFormed ≠ "[[erased]]") :
    isPiiCiphertext (.text (.of text) : FieldValue J) = true ∧
      proc.readValue field (.text (.of text) : FieldValue J) = .ok (.text (.of plaintext.wellFormed)) ∧
      proc.blindIndexForValue key field (.text (.of text) : FieldValue J) =
        .ok (some (proc.computeBlindIndex key plaintext)) := by
  obtain ⟨blob, hblob, hdecrypt⟩ := encryptValue_ok htext
  obtain ⟨hcipher, hparse⟩ := parse_stored (J := J) hsubject blob false hblob
  have hget : store.getKey subjectKey = .ok dek := by rw [KeyStore.getKey, hlive]
  have hread : decryptField proc.aes proc.json store field (.text (.of text) : FieldValue J) =
      .ok (.text (.of plaintext.wellFormed)) := by
    rw [decryptField, if_neg (by simp [hcipher])]
    simp only [JsText.of, hparse, hsubject, hget, hdecrypt, Bool.false_eq_true, if_false]
  have hkept : isErasedSentinel (.text (.of text) : FieldValue J) = false := by
    by_contra h
    rw [Bool.not_eq_false] at h
    obtain rfl : text = "[[erased]]" := by simpa [isErasedSentinel, JsText.of] using h
    exact absurd hcipher (by simp [isPiiCiphertext, JsText.of, startsWith, piiCiphertextPrefix,
      piiCiphertextPrefixJson, piiCiphertextPrefixV1, List.isPrefixOf])
  refine ⟨hcipher, by rw [readValue, hkms]; exact hread, ?_⟩
  have hplain : isErasedSentinel (.text (.of plaintext.wellFormed) : FieldValue J) = false := by
    simp [isErasedSentinel, JsText.of, hsentinel]
  have hvalue : proc.blindIndexForValue key field (.text (.of text) : FieldValue J) =
      .ok (some (proc.computeBlindIndex key (.of plaintext.wellFormed))) := by
    rw [blindIndexForValue, hkept, hcipher, hkms, if_neg Bool.false_ne_true, if_neg (by decide)]
    simp only [hread, hplain, Bool.false_eq_true, if_false]
  exact hvalue

/-- **Blind-index lookup.** An equality with a string selects a row of the mix if and only if the field reads
as that string, unless the string is the row's own ciphertext; one with `null` selects where it reads as
`null`. A list, as an array or under `in`, selects by the stored text alone: of the plaintext rows those
that one of its elements selects, and no encrypted row by what it reads as. The list of an entity
refuses such a filter. -/
theorem blindIndex_lookup (env : FilterEnv) (hc : BlindIndexed c) (hpg : TextColumn pg scalar)
    (hkey : proc.bidxKey = some key) (hinj : Function.Injective (proc.hmac key)) (hmix : row.InMix proc key field) :
    (∀ q, (row.stored = some q → isPiiCiphertext (.text (.of q) : FieldValue J) = false) →
      ∃ b, lookupSelects pg scalar (proc.filterEnv env) c row (.str q) = some b ∧
        (b = true ↔ row.ReadsAs proc field q)) ∧
    (∃ b, lookupSelects pg scalar (proc.filterEnv env) c row .null = some b ∧
      (b = true ↔ proc.readValue field (row.value : FieldValue J) = .ok .null)) ∧
    (∀ qs : List (Option String), ∃ b,
      lookupSelects pg scalar (proc.filterEnv env) c row (.arr (qs.map textValue)) = some b ∧
      lookupSelects pg scalar (proc.filterEnv env) c row (.obj [("in", .arr (qs.map textValue))]) = some b ∧
      (b = true ↔ ∃ q, row.stored = some q ∧ some q ∈ qs) ∧
      (isPiiCiphertext (row.value : FieldValue J) = false →
        (b = true ↔ ∃ q, some q ∈ qs ∧
          lookupSelects pg scalar (proc.filterEnv env) c row (.str q) = some true))) ∧
    (c.holdsCiphertextOrSecret = true → ∀ v, isListFilterAllowed c .in v = false) := by
  refine ⟨fun q hq => ⟨_, lookupSelects_str env hc hpg hkey, ?_⟩, ⟨_, lookupSelects_null hc, ?_⟩,
    fun qs => ?_, ?_⟩
  · rw [Bool.or_eq_true, decide_eq_true_iff, decide_eq_true_iff]
    exact hmix.lookup hinj hq
  · rw [decide_eq_true_iff]
    exact hmix.reads_null
  · obtain ⟨harr, hin⟩ := lookupSelects_list (proc.filterEnv env) row hc hpg qs
    refine ⟨_, harr, hin, decide_eq_true_iff, fun hplain => ?_⟩
    rw [decide_eq_true_iff]
    have heq : ∀ q, lookupSelects pg scalar (proc.filterEnv env) c row (.str q) = some true ↔
        row.stored = some q := by
      intro q
      rw [lookupSelects_str env hc hpg hkey, Option.some.injEq, Bool.or_eq_true, decide_eq_true_iff, decide_eq_true_iff]
      have hq : row.stored = some q → isPiiCiphertext (.text (.of q) : FieldValue J) = false := by
        intro hs
        rwa [LookupRow.value, hs] at hplain
      rw [hmix.lookup hinj hq]
      cases hs : row.stored with
      | none =>
        simp only [reduceCtorEq, iff_false]
        rintro ⟨t, ht, -⟩
        rw [LookupRow.value, hs, PiiProcess.readValue_of_plain rfl] at ht
        cases ht
      | some s =>
        rw [LookupRow.value, hs] at hplain
        rw [LookupRow.readsAs_of_plain hs hplain, Option.some.injEq]
    constructor
    · rintro ⟨q, hs, hmem⟩
      exact ⟨q, hmem, (heq q).2 hs⟩
    · rintro ⟨q, hmem, hsel⟩
      exact ⟨q, (heq q).1 hsel, hmem⟩
  · intro hholds v
    simp [isListFilterAllowed, hholds]

end

/-! ### Two users' addresses -/

/-- Postgres with texts only. -/
def textPostgres : Postgres where
  Scalar := String
  accepts _ _ _ := true
  compare _ _ cell v :=
    match cell, v with
    | .scalar s, .raw (.str q) => some (s == q)
    | _, _ => none
  acceptsArray _ _ := true
  equalsAny _ _ _ := none
  contains _ _ := false
  equalsJson _ _ := false
  textAt _ _ := none

theorem textPostgres_textColumn : TextColumn textPostgres id :=
  ⟨fun _ => rfl, fun _ _ => rfl, rfl, fun _ => rfl⟩

/-- The column of an address with a blind index. -/
def emailColumn : FilterColumn where
  pgType := .text
  optionList := false
  hasBidx := true
  namedBidx := false
  holdsCiphertextOrSecret := true
  blindIndexTarget := true
  optionList_jsonb := nofun
  hasBidx_text _ := rfl

def emailEnv : FilterEnv := ⟨none, fun _ => none, fun _ => true, fun _ _ => true⟩

/-- A process with the key of one user, the cipher that hides nothing and the digest that keeps the text. -/
def emailProcess : PiiProcess Empty where
  aes := nullCipher
  json := noJson
  hmac _ text := text
  bidxKey := some (List.replicate 32 7)
  kms := some fun key => if key = "user:u1" then some (.live (List.replicate 32 7)) else none

/-- The row of an encrypted address. -/
theorem exists_emailRow : ∃ row : LookupRow, row.InMix emailProcess (List.replicate 32 7) "email" ∧
    row.stored ≠ some "ada@example.org" ∧ row.ReadsAs emailProcess "email" "ada@example.org" := by
  have htext : ∃ text, encryptValue nullCipher "user:u1" (List.replicate 32 7) ⟨List.replicate 12 0, rfl⟩
      (.of "ada@example.org") "email" false = .ok text := ⟨_, rfl⟩
  obtain ⟨text, htext⟩ := htext
  have hsubject : subjectIdToKey (.user "u1") = .ok "user:u1" := rfl
  obtain ⟨hcipher, hread, hindex⟩ :=
    emailProcess.blindIndex_of_encrypted (List.replicate 32 7) rfl hsubject rfl htext (by decide)
  refine ⟨⟨some text, some (emailProcess.computeBlindIndex (List.replicate 32 7) (.of "ada@example.org"))⟩,
    .inr ⟨hindex, fun _ h => nomatch h⟩, ?_, .of "ada@example.org", hread, rfl⟩
  rintro ⟨⟩
  exact absurd hcipher (by decide)

theorem blindIndex_lookup_ada : ∃ row : LookupRow, row.stored ≠ some "ada@example.org" ∧
    lookupSelects textPostgres id (emailProcess.filterEnv emailEnv) emailColumn row (.str "ada@example.org") =
      some true := by
  obtain ⟨row, hmix, hstored, hreads⟩ := exists_emailRow
  have hc : BlindIndexed emailColumn := ⟨rfl, rfl⟩
  obtain ⟨b, hb, hiff⟩ := (blindIndex_lookup emailEnv hc textPostgres_textColumn rfl (fun _ _ h => h) hmix).1
    "ada@example.org" fun h => absurd h hstored
  exact ⟨row, hstored, by rw [hb, hiff.2 hreads]⟩

/-- The row of an encrypted address is selected by an equality with the address, and not by a list of it. -/
theorem not_list_is_union : ∃ row : LookupRow, row.InMix emailProcess (List.replicate 32 7) "email" ∧
    lookupSelects textPostgres id (emailProcess.filterEnv emailEnv) emailColumn row (.str "ada@example.org") =
      some true ∧
    lookupSelects textPostgres id (emailProcess.filterEnv emailEnv) emailColumn row
      (.arr [.str "ada@example.org"]) = some false ∧
    lookupSelects textPostgres id (emailProcess.filterEnv emailEnv) emailColumn row
      (.obj [("in", .arr [.str "ada@example.org"])]) = some false := by
  obtain ⟨row, hmix, hstored, hreads⟩ := exists_emailRow
  have hc : BlindIndexed emailColumn := ⟨rfl, rfl⟩
  have hlist := lookupSelects_list (emailProcess.filterEnv emailEnv) row hc textPostgres_textColumn
    [some "ada@example.org"]
  have hnone : decide (∃ s, row.stored = some s ∧ some s ∈ [some "ada@example.org"]) = false := by
    rw [decide_eq_false_iff_not]
    rintro ⟨s, hs, hmem⟩
    obtain rfl : s = "ada@example.org" := by simpa using hmem
    exact hstored hs
  rw [hnone] at hlist
  refine ⟨row, hmix, ?_, hlist.1, hlist.2⟩
  have hkey : emailProcess.bidxKey = some (List.replicate 32 7) := rfl
  rw [lookupSelects_str emailEnv hc textPostgres_textColumn hkey, Option.some.injEq, Bool.or_eq_true,
    decide_eq_true_iff, decide_eq_true_iff]
  exact (hmix.lookup (fun _ _ h => h) fun h => absurd h hstored).2 hreads

end Kumiko
