import Mathlib.Data.List.Sort
import Kumiko.Crypto.SubjectId
import Kumiko.Library.Run

/-!
# The subject keys and their erasure

`crypto/pg-kms-adapter.ts`: any number of adapters and rotations over one key table, a statement at a time. A
rotation writes the rows it has read back one by one, guarded on `kek_version`, which `eraseKey` leaves as it
was; a row that it has read before the erase then gets its wrapped key back (`not_erased`). Without such a write
an erased subject stays erased (`erased_of_run`).
-/

namespace Kumiko

open Transition

/-- The cipher of `node:crypto` (`aes-256-gcm`). -/
structure AesGcm where
  /-- The ciphertext and the tag for a key, an initialisation vector and a plaintext. -/
  encipher : Bytes → Bytes → Bytes → Bytes × Bytes
  /-- The plaintext for a key, an initialisation vector, a ciphertext and its tag. -/
  decipher : Bytes → Bytes → Bytes → Bytes → Option Bytes

/-- Reference: `IV_LENGTH`. -/
def ivLength : ℕ := 12

/-- Reference: `TAG_LENGTH`. -/
def tagLength : ℕ := 16

/-- The envelope of a key, with the random bytes `iv`. Reference: `wrapDek`. -/
def wrapDek (aes : AesGcm) (kek iv dek : Bytes) : Bytes :=
  let (ciphertext, tag) := aes.encipher kek iv dek
  iv ++ tag ++ ciphertext

/-- Reference: `unwrapDek`. -/
def unwrapDek (aes : AesGcm) (kek wrapped : Bytes) : Option Bytes :=
  let iv := wrapped.take ivLength
  let tag := (wrapped.drop ivLength).take tagLength
  let ciphertext := wrapped.drop (ivLength + tagLength)
  aes.decipher kek iv ciphertext tag

/-- A platform key, decoded. Reference: `decodePlatformKek`. -/
abbrev Kek := { kek : Bytes // kek.length = 32 }

/-- What the calls read of their context. -/
structure KmsContext where
  userId : Option String
  eraseReason : Option String

/-- A row of `kumiko_subject_keys`. -/
structure SubjectKeyRow where
  subjectId : String
  cipherKey : Option Bytes
  kekVersion : ℤ
  createdAt : ℕ
  createdBy : Option String
  erasedAt : Option ℕ
  erasedBy : Option String
  eraseReason : Option String

/-- A configured adapter. -/
structure PgKmsAdapter where
  kek : Kek
  kekVersion : ℤ
  previousKeks : List (ℤ × Kek)
  /-- The constructor refuses others. -/
  previous_older : ∀ p ∈ previousKeks, p.1 < kekVersion

/-- The errors of the calls. -/
inductive KmsError
  | keyAlreadyExists (subject : SubjectId)
  | keyNotFound (subject : SubjectId)
  | keyErased (subject : SubjectId)
  /-- Reference: `kekFor`. -/
  | unknownKekVersion (subject : SubjectId) (version : ℤ)
  | invalidSubject (message : String)
  | decipherFailed

/-- The key that a version names. Reference: `kekFor`. -/
def PgKmsAdapter.kekFor (a : PgKmsAdapter) (version : ℤ) (subject : SubjectId) :
    Except KmsError Kek :=
  if version = a.kekVersion then .ok a.kek
  else match a.previousKeks.lookup version with
    | some previous => .ok previous
    | none => .error (.unknownKekVersion subject version)

/-- The row of a key. -/
def findRow (rows : List SubjectKeyRow) (key : String) : Option SubjectKeyRow :=
  rows.find? (·.subjectId = key)

/-- Reference: `getKey`. -/
def PgKmsAdapter.getKey (aes : AesGcm) (a : PgKmsAdapter) (rows : List SubjectKeyRow)
    (subject : SubjectId) : Except KmsError Bytes :=
  match subjectIdToKey subject with
  | .error message => .error (.invalidSubject message)
  | .ok key =>
    match findRow rows key with
    | none => .error (.keyNotFound subject)
    | some row =>
      match row.erasedAt, row.cipherKey with
      | some _, _ | none, none => .error (.keyErased subject)
      | none, some cipherKey =>
        match a.kekFor row.kekVersion subject with
        | .error e => .error e
        | .ok kek =>
          match unwrapDek aes kek cipherKey with
          | some dek => .ok dek
          | none => .error .decipherFailed

/-- A configured rotation. -/
structure RewrapOptions where
  fromKeks : List (ℤ × Kek)
  toKek : Kek
  toKekVersion : ℤ
  batchSize : ℕ
  dryRun : Bool

/-- What a rotation reports. -/
structure RewrapResult where
  scanned : ℕ
  rewrapped : ℕ
  skippedErased : ℕ
  failures : List (String × String)

/-- A rotation under way. -/
structure Rewrap where
  options : RewrapOptions
  cursor : String
  /-- The rows of the batch that are still to go through. -/
  rows : List SubjectKeyRow
  /-- The write of the first of them waits for its commit. -/
  updating : Bool
  result : RewrapResult

/-- Who has written a row that is not yet committed. -/
inductive RowWriter
  | create
  | erase
  | rewrap (j : ℕ)
  deriving DecidableEq

/-- The key table, the writes that are not yet committed, by the keys they lock, and the rotations;
and the keys whose erase has committed, which the source does not record. -/
structure SubjectKeys where
  rows : List SubjectKeyRow
  pending : String → Option (RowWriter × SubjectKeyRow)
  rewraps : ℕ → Option Rewrap
  erased : List String

/-- The steps of the parties. The random bytes and the time of a statement are given. -/
inductive SubjectKeysAct
  | createKey (a : PgKmsAdapter) (subject : SubjectId) (ctx : KmsContext) (iv dek : Bytes) (now : ℕ)
  | eraseKey (a : PgKmsAdapter) (subject : SubjectId) (ctx : KmsContext) (now : ℕ)
  | commit (key : String)
  | rollback (key : String)
  | startRewrap (j : ℕ) (options : RewrapOptions)
  /-- The next batch is read. -/
  | selectBatch (j : ℕ)
  /-- The next row of the batch is worked on. -/
  | rewrapRow (j : ℕ) (iv : Bytes)

/-- The rows with one of them replaced, or a new one. -/
def putRow (rows : List SubjectKeyRow) (row : SubjectKeyRow) : List SubjectKeyRow :=
  row :: rows.filter (·.subjectId ≠ row.subjectId)

/-- The batch a rotation reads. Reference: the `SELECT` of `rewrapSubjectKeys`. -/
def rewrapBatch (rows : List SubjectKeyRow) (r : Rewrap) : List SubjectKeyRow :=
  ((rows.filter fun row => row.kekVersion ≠ r.options.toKekVersion && r.cursor < row.subjectId
    ).insertionSort fun x y => x.subjectId ≤ y.subjectId).take r.options.batchSize

/-- The wrapped key that a rotation writes for a row, or why it fails. -/
def rewrappedKey (aes : AesGcm) (options : RewrapOptions) (row : SubjectKeyRow) (cipherKey iv : Bytes) :
    Except String Bytes :=
  match options.fromKeks.lookup row.kekVersion with
  | none => .error ("no fromKek configured for kek_version " ++ toString row.kekVersion)
  | some fromKek =>
    match unwrapDek aes fromKek cipherKey with
    | none => .error "Unsupported state or unable to authenticate data"
    | some dek => .ok (wrapDek aes options.toKek iv dek)

namespace Rewrap

/-- The first row of the batch is done. -/
def next (r : Rewrap) (result : RewrapResult) : Rewrap :=
  { r with rows := r.rows.tail, updating := false, result }

/-- The first row has been rewrapped. -/
def succeed (r : Rewrap) : Rewrap :=
  r.next { r.result with rewrapped := r.result.rewrapped + 1 }

/-- The first row has failed. -/
def fail (r : Rewrap) (reason : String) : Rewrap :=
  r.next { r.result with failures := r.result.failures ++
    [((r.rows.head?.map (·.subjectId)).getD "", reason)] }

end Rewrap

namespace SubjectKeys

/-- An empty table. -/
def start : SubjectKeys :=
  { rows := [], pending := fun _ => none, rewraps := fun _ => none, erased := [] }

/-- A write that is not yet committed. -/
def write (w : SubjectKeys) (writer : RowWriter) (row : SubjectKeyRow) : SubjectKeys :=
  { w with pending := Function.update w.pending row.subjectId (some (writer, row)) }

/-- A rotation goes on. -/
def setRewrap (w : SubjectKeys) (j : ℕ) (r : Rewrap) : SubjectKeys :=
  { w with rewraps := Function.update w.rewraps j (some r) }

/-- A write ends; a rotation that waited for it goes on. -/
def endWrite (w : SubjectKeys) (key : String) (writer : RowWriter) (f : Rewrap → Rewrap) :
    SubjectKeys :=
  { w with
    pending := Function.update w.pending key none
    rewraps := match writer with
      | .rewrap j => Function.update w.rewraps j ((w.rewraps j).map f)
      | .create | .erase => w.rewraps }

end SubjectKeys

/-- The row a create inserts. Reference: the `INSERT` of `createKey` and the column defaults. -/
def createdRow (aes : AesGcm) (a : PgKmsAdapter) (key : String) (ctx : KmsContext) (iv dek : Bytes)
    (now : ℕ) : SubjectKeyRow :=
  { subjectId := key, cipherKey := some (wrapDek aes a.kek iv dek), kekVersion := a.kekVersion
    createdAt := now, createdBy := ctx.userId, erasedAt := none, erasedBy := none
    eraseReason := none }

/-- The tombstone of a key that has no row. Reference: the `INSERT` of `eraseKey`. -/
def tombstoneRow (a : PgKmsAdapter) (key : String) (ctx : KmsContext) (now : ℕ) : SubjectKeyRow :=
  { subjectId := key, cipherKey := none, kekVersion := a.kekVersion, createdAt := now
    createdBy := none, erasedAt := some now, erasedBy := ctx.userId, eraseReason := ctx.eraseReason }

/-- The tombstone of a row. Reference: the `DO UPDATE` of `eraseKey`. -/
def SubjectKeyRow.erase (row : SubjectKeyRow) (ctx : KmsContext) (now : ℕ) : SubjectKeyRow :=
  { row with cipherKey := none, erasedAt := some now, erasedBy := ctx.userId,
             eraseReason := ctx.eraseReason }

/-- One step of the system. A write to a locked row waits, which is no step. -/
def subjectKeysStep (aes : AesGcm) (w : SubjectKeys) : SubjectKeysAct → Option SubjectKeys
  | .createKey a subject ctx iv dek now =>
    match subjectIdToKey subject with
    | .error _ => none
    | .ok key =>
      match w.pending key, findRow w.rows key with
      | some _, _ => none
      -- the unique violation is reported as `KeyAlreadyExistsError`
      | none, some _ => some w
      | none, none => some (w.write .create (createdRow aes a key ctx iv dek now))
  | .eraseKey a subject ctx now =>
    match subjectIdToKey subject with
    | .error _ => none
    | .ok key =>
      match w.pending key, findRow w.rows key with
      | some _, _ => none
      | none, none => some (w.write .erase (tombstoneRow a key ctx now))
      | none, some row =>
        -- `WHERE kumiko_subject_keys.erased_at IS NULL`
        match row.erasedAt with
        | none => some (w.write .erase (row.erase ctx now))
        | some _ => some { w with erased := key :: w.erased }
  | .commit key =>
    (w.pending key).map fun (writer, row) =>
      let w := w.endWrite key writer Rewrap.succeed
      { w with rows := putRow w.rows row
               erased := if writer = .erase then key :: w.erased else w.erased }
  | .rollback key =>
    (w.pending key).map fun (writer, _) => w.endWrite key writer (·.fail "rolled back")
  | .startRewrap j options =>
    match w.rewraps j with
    | some _ => none
    | none => some (w.setRewrap j
        { options, cursor := "", rows := [], updating := false
          result := { scanned := 0, rewrapped := 0, skippedErased := 0, failures := [] } })
  | .selectBatch j =>
    match w.rewraps j with
    | some r =>
      if r.rows = [] then
        let rows := rewrapBatch w.rows r
        -- the cursor is only read by the next batch
        some (w.setRewrap j { r with rows, cursor := (rows.getLast?.map (·.subjectId)).getD r.cursor })
      else none
    | none => none
  | .rewrapRow j iv =>
    match w.rewraps j with
    | none => none
    | some r =>
      match r.rows, r.updating with
      | [], _ | _, true => none
      | row :: _, false =>
        let r := { r with result := { r.result with scanned := r.result.scanned + 1 } }
        match row.cipherKey with
        | none => some (w.setRewrap j
            (r.next { r.result with skippedErased := r.result.skippedErased + 1 }))
        | some cipherKey =>
          match rewrappedKey aes r.options row cipherKey iv with
          | .error reason => some (w.setRewrap j (r.fail reason))
          | .ok rewrapped =>
            if r.options.dryRun then some (w.setRewrap j r.succeed)
            else
              match w.pending row.subjectId, findRow w.rows row.subjectId with
              | some _, _ => none
              | none, none => some (w.setRewrap j r.succeed)
              | none, some current =>
                -- `WHERE subject_id = … AND kek_version = …`
                if current.kekVersion = row.kekVersion then
                  some ((w.write (.rewrap j) { current with
                    cipherKey := some rewrapped, kekVersion := r.options.toKekVersion }
                    ).setRewrap j { r with updating := true })
                else some (w.setRewrap j r.succeed)

/-! ## What the steps write -/

/-- The committed row that a rotation's next `UPDATE` writes to. -/
def rewriteTarget (aes : AesGcm) (w : SubjectKeys) (j : ℕ) (iv : Bytes) : Option SubjectKeyRow := do
  let r ← w.rewraps j
  let row ← r.rows.head?
  let cipherKey ← row.cipherKey
  let _ ← (rewrappedKey aes r.options row cipherKey iv).toOption
  if r.options.dryRun then none
  else (findRow w.rows row.subjectId).filter (·.kekVersion = row.kekVersion)

/-- What a write makes of its row. -/
inductive RowWritten (aes : AesGcm) (w : SubjectKeys) (a : SubjectKeysAct) :
    RowWriter → SubjectKeyRow → Prop
  | create {row : SubjectKeyRow} :
    findRow w.rows row.subjectId = none → row.erasedAt = none → RowWritten aes w a .create row
  | erase {row : SubjectKeyRow} :
    row.erasedAt ≠ none → row.cipherKey = none → RowWritten aes w a .erase row
  | rewrap {j : ℕ} {iv : Bytes} {current row : SubjectKeyRow} :
    a = .rewrapRow j iv → rewriteTarget aes w j iv = some current →
    findRow w.rows row.subjectId = some current → row.erasedAt = current.erasedAt →
    RowWritten aes w a (.rewrap j) row

/-- What the steps do to the table. -/
inductive SubjectKeysStep (aes : AesGcm) (w : SubjectKeys) (a : SubjectKeysAct) :
    SubjectKeys → Prop
  /-- The table stays as it is. -/
  | unchanged {w' : SubjectKeys} :
    w'.rows = w.rows → w'.pending = w.pending → w'.erased = w.erased → SubjectKeysStep aes w a w'
  /-- A row is locked and written. -/
  | write {w' : SubjectKeys} {writer : RowWriter} {row : SubjectKeyRow} :
    RowWritten aes w a writer row → w'.rows = w.rows →
    w'.pending = Function.update w.pending row.subjectId (some (writer, row)) →
    w'.erased = w.erased → SubjectKeysStep aes w a w'
  /-- An erase finds a tombstone. -/
  | eraseAgain {w' : SubjectKeys} {key : String} {row : SubjectKeyRow} :
    findRow w.rows key = some row → row.erasedAt ≠ none → w'.rows = w.rows →
    w'.pending = w.pending → w'.erased = key :: w.erased → SubjectKeysStep aes w a w'
  | commit {w' : SubjectKeys} {key : String} {writer : RowWriter} {row : SubjectKeyRow} :
    w.pending key = some (writer, row) → w'.rows = putRow w.rows row →
    w'.pending = Function.update w.pending key none →
    w'.erased = (if writer = .erase then key :: w.erased else w.erased) → SubjectKeysStep aes w a w'
  | rollback {w' : SubjectKeys} {key : String} :
    w'.rows = w.rows → w'.pending = Function.update w.pending key none → w'.erased = w.erased →
    SubjectKeysStep aes w a w'

section
variable {aes : AesGcm} {w w' : SubjectKeys} {a : SubjectKeysAct} {rows : List SubjectKeyRow}
  {row old : SubjectKeyRow} {key : String} {subject : SubjectId}

theorem mem_putRow :
    old ∈ putRow rows row ↔ old = row ∨ old ∈ rows ∧ old.subjectId ≠ row.subjectId := by
  simp [putRow]

theorem findRow_subjectId (h : findRow rows key = some row) : row.subjectId = key := by
  have := List.find?_some h
  simpa using this

theorem findRow_putRow_self : findRow (putRow rows row) row.subjectId = some row :=
  List.find?_cons_of_pos (by simp)

theorem findRow_putRow_of_ne (h : key ≠ row.subjectId) :
    findRow (putRow rows row) key = findRow rows key := by
  rw [findRow, putRow, List.find?_cons_of_neg (by simpa using h.symm), List.find?_filter]
  unfold findRow
  congr 1
  funext r
  by_cases hr : r.subjectId = key
  · simp [hr, h]
  · simp [hr]

/-- A step goes by one of the rules. -/
theorem SubjectKeysStep.of_step (h : subjectKeysStep aes w a = some w') :
    SubjectKeysStep aes w a w' := by
  cases a with
  | createKey adapter subject ctx iv dek now =>
    simp only [subjectKeysStep] at h
    split at h
    · cases h
    · split at h <;> cases h
      · exact .unchanged rfl rfl rfl
      · rename_i hf
        exact .write (.create hf rfl) rfl rfl rfl
  | eraseKey adapter subject ctx now =>
    simp only [subjectKeysStep] at h
    split at h
    · cases h
    · split at h
      · cases h
      · cases h
        exact .write (.erase (by simp [tombstoneRow]) rfl) rfl rfl rfl
      · rename_i row _ hf
        split at h <;> cases h
        · exact .write (.erase (by simp [SubjectKeyRow.erase]) rfl) rfl rfl rfl
        · rename_i he
          exact .eraseAgain hf (by simp [he]) rfl rfl rfl
  | commit key =>
    obtain ⟨⟨writer, row⟩, hp, rfl⟩ := Option.map_eq_some_iff.1 h
    exact .commit hp rfl rfl rfl
  | rollback key =>
    obtain ⟨⟨writer, row⟩, hp, rfl⟩ := Option.map_eq_some_iff.1 h
    exact .rollback rfl rfl rfl
  | startRewrap j options =>
    simp only [subjectKeysStep] at h
    split at h <;> cases h
    exact .unchanged rfl rfl rfl
  | selectBatch j =>
    simp only [subjectKeysStep] at h
    split at h
    · rw [Option.ite_none_right_eq_some] at h
      obtain ⟨_, h⟩ := h
      cases h
      exact .unchanged rfl rfl rfl
    · cases h
  | rewrapRow j iv =>
    simp only [subjectKeysStep] at h
    split at h
    · cases h
    rename_i r hr
    split at h
    · cases h
    · cases h
    rename_i row rows hrows _
    split at h
    · cases h
      exact .unchanged rfl rfl rfl
    rename_i cipherKey hcipher
    split at h
    · cases h
      exact .unchanged rfl rfl rfl
    rename_i rewrapped hkey
    split at h
    · cases h
      exact .unchanged rfl rfl rfl
    rename_i hdry
    split at h
    · cases h
    · cases h
      exact .unchanged rfl rfl rfl
    rename_i current hp hf
    split at h <;> cases h
    · rename_i hv
      have htarget : rewriteTarget aes w j iv = some current := by
        simp [rewriteTarget, hr, hrows, hcipher, hkey, hdry, hf, hv, Except.toOption]
      have hid := findRow_subjectId hf
      refine .write (.rewrap rfl htarget ?_ ?_) rfl rfl rfl
      · rw [hid, hf]
      · rfl
    · exact .unchanged rfl rfl rfl

/-! ## What erasure promises -/

/-- The key is gone for good. -/
structure Erased (aes : AesGcm) (w : SubjectKeys) (key : String) : Prop where
  /-- The table holds no wrapped key for it. -/
  no_key : ∀ row ∈ w.rows, row.subjectId = key → row.cipherKey = none
  /-- And none is being written. -/
  no_write : ∀ writer row, w.pending key = some (writer, row) → row.cipherKey = none
  /-- Every adapter reports it as erased. -/
  getKey : ∀ (a : PgKmsAdapter) (subject : SubjectId), subjectIdToKey subject = .ok key →
    a.getKey aes w.rows subject = .error (.keyErased subject)

/-- A rotation does not write to a tombstone. -/
def RewrapOk (aes : AesGcm) (w : SubjectKeys) : SubjectKeysAct → Prop
  | .rewrapRow j iv => (rewriteTarget aes w j iv).all (·.erasedAt.isNone) = true
  | _ => True

instance (aes : AesGcm) (w : SubjectKeys) (a : SubjectKeysAct) : Decidable (RewrapOk aes w a) := by
  unfold RewrapOk
  split <;> infer_instance

/-- What every run keeps: a tombstone stays one, and writes do not undo it. -/
structure KeysInv (w : SubjectKeys) : Prop where
  /-- A key has one row. -/
  found : ∀ row ∈ w.rows, findRow w.rows row.subjectId = some row
  pending_key : ∀ key writer row, w.pending key = some (writer, row) → row.subjectId = key
  pending_erase : ∀ key row, w.pending key = some (.erase, row) → row.erasedAt ≠ none
  pending_keeps : ∀ key writer row old, w.pending key = some (writer, row) →
    findRow w.rows key = some old → old.erasedAt ≠ none → row.erasedAt ≠ none
  erased : ∀ key ∈ w.erased, ∃ row, findRow w.rows key = some row ∧ row.erasedAt ≠ none

/-- What a run keeps that meets the condition: a tombstone holds no key. -/
structure TombstoneInv (w : SubjectKeys) : Prop where
  rows : ∀ row ∈ w.rows, row.erasedAt ≠ none → row.cipherKey = none
  pending : ∀ key writer row, w.pending key = some (writer, row) → row.erasedAt ≠ none →
    row.cipherKey = none

theorem keysInv_start : KeysInv .start := by
  constructor <;> simp [SubjectKeys.start]

theorem tombstoneInv_start : TombstoneInv .start := by
  constructor <;> simp [SubjectKeys.start]

/-- A committed write changes one row. -/
theorem KeysInv.found_putRow (h : KeysInv w) :
    ∀ r ∈ putRow w.rows row, findRow (putRow w.rows row) r.subjectId = some r := by
  intro r hr
  rcases mem_putRow.1 hr with rfl | ⟨hr, hne⟩
  · exact findRow_putRow_self
  · rw [findRow_putRow_of_ne hne]
    exact h.found r hr

/-- The entries of a map with one of them replaced. -/
theorem of_update_eq_some {α : Type*} {f : String → Option α} {k k' : String} {v : Option α} {x : α}
    (h : Function.update f k v k' = some x) : k' = k ∧ v = some x ∨ k' ≠ k ∧ f k' = some x := by
  by_cases hk : k' = k
  · subst hk
    rw [Function.update_self] at h
    exact .inl ⟨rfl, h⟩
  · rw [Function.update_of_ne hk] at h
    exact .inr ⟨hk, h⟩

theorem KeysInv.step (h : KeysInv w) (hs : SubjectKeysStep aes w a w') : KeysInv w' := by
  cases hs with
  | unchanged hr hp he =>
    refine ⟨?_, ?_, ?_, ?_, ?_⟩ <;> simp only [hr, hp, he]
    · exact h.found
    · exact h.pending_key
    · exact h.pending_erase
    · exact h.pending_keeps
    · exact h.erased
  | write hw hr hp he =>
    refine ⟨hr ▸ h.found, fun key writer row hpend => ?_, fun key row hpend => ?_,
      fun key writer row old hpend hold hne => ?_, ?_⟩
    · rw [hp] at hpend
      rcases of_update_eq_some hpend with ⟨rfl, hx⟩ | ⟨-, hpend⟩
      · cases hx
        rfl
      · exact h.pending_key _ _ _ hpend
    · rw [hp] at hpend
      rcases of_update_eq_some hpend with ⟨-, hx⟩ | ⟨-, hpend⟩
      · cases hx
        cases hw with
        | erase hne => exact hne
      · exact h.pending_erase _ _ hpend
    · rw [hp] at hpend
      rw [hr] at hold
      rcases of_update_eq_some hpend with ⟨rfl, hx⟩ | ⟨-, hpend⟩
      · cases hx
        cases hw with
        | create hf =>
          rw [hf] at hold
          cases hold
        | erase hne => exact hne
        | rewrap _ _ hf he =>
          rw [hf] at hold
          cases hold
          rwa [he]
      · exact h.pending_keeps _ _ _ _ hpend hold hne
    · rw [hr, he]
      exact h.erased
  | eraseAgain hf hne hr hp he =>
    refine ⟨hr ▸ h.found, hp ▸ h.pending_key, hp ▸ h.pending_erase, ?_, fun key' hk => ?_⟩
    · rw [hr, hp]
      exact h.pending_keeps
    · rw [he] at hk
      rw [hr]
      cases hk with
      | head => exact ⟨_, hf, hne⟩
      | tail _ hk => exact h.erased key' hk
  | @commit key writer row hpend hr hp he =>
    have hid := h.pending_key _ _ _ hpend
    subst hid
    have old : ∀ key writer' row', w'.pending key = some (writer', row') →
        key ≠ row.subjectId ∧ w.pending key = some (writer', row') := by
      intro key writer' row' hpend'
      rw [hp] at hpend'
      exact (of_update_eq_some hpend').resolve_left fun hx => nomatch hx.2
    refine ⟨hr ▸ h.found_putRow, fun _ _ _ hpend' => h.pending_key _ _ _ (old _ _ _ hpend').2,
      fun _ _ hpend' => h.pending_erase _ _ (old _ _ _ hpend').2,
      fun key' writer' row' old' hpend' hold hne => ?_, fun key' hk => ?_⟩
    · have ⟨hne', hpend'⟩ := old _ _ _ hpend'
      rw [hr, findRow_putRow_of_ne hne'] at hold
      exact h.pending_keeps _ _ _ _ hpend' hold hne
    · rw [hr]
      rw [he] at hk
      by_cases hkey : key' = row.subjectId
      · subst hkey
        refine ⟨row, findRow_putRow_self, ?_⟩
        split at hk
        · rename_i hw
          exact h.pending_erase _ _ (hw ▸ hpend)
        · obtain ⟨old', hold, hne⟩ := h.erased _ hk
          exact h.pending_keeps _ _ _ _ hpend hold hne
      · rw [findRow_putRow_of_ne hkey]
        refine h.erased key' ?_
        split at hk
        · exact List.mem_of_ne_of_mem hkey hk
        · exact hk
  | @rollback key hr hp he =>
    have old : ∀ key' writer' row', w'.pending key' = some (writer', row') →
        w.pending key' = some (writer', row') := by
      intro key' writer' row' hpend'
      rw [hp] at hpend'
      exact ((of_update_eq_some hpend').resolve_left fun hx => nomatch hx.2).2
    refine ⟨hr ▸ h.found, fun _ _ _ hpend' => h.pending_key _ _ _ (old _ _ _ hpend'),
      fun _ _ hpend' => h.pending_erase _ _ (old _ _ _ hpend'),
      fun _ _ _ _ hpend' hold => h.pending_keeps _ _ _ _ (old _ _ _ hpend') (hr ▸ hold), ?_⟩
    rw [hr, he]
    exact h.erased

theorem TombstoneInv.step (h : TombstoneInv w) (hok : RewrapOk aes w a)
    (hs : SubjectKeysStep aes w a w') : TombstoneInv w' := by
  cases hs with
  | unchanged hr hp => exact ⟨hr ▸ h.rows, hp ▸ h.pending⟩
  | eraseAgain _ _ hr hp => exact ⟨hr ▸ h.rows, hp ▸ h.pending⟩
  | write hw hr hp =>
    refine ⟨hr ▸ h.rows, fun key writer row hpend hne => ?_⟩
    rw [hp] at hpend
    rcases of_update_eq_some hpend with ⟨rfl, hx⟩ | ⟨-, hpend⟩
    · cases hx
      cases hw with
      | create _ he => exact absurd he hne
      | erase _ hc => exact hc
      | rewrap ha ht _ he =>
        -- the condition: the row that is written to is not a tombstone
        subst ha
        rw [RewrapOk, ht, Option.all_some, Option.isNone_iff_eq_none] at hok
        exact absurd (he.trans hok) hne
    · exact h.pending _ _ _ hpend hne
  | commit hpend hr hp =>
    refine ⟨fun r hr' hne => ?_, fun key writer row hpend' hne => ?_⟩
    · rw [hr] at hr'
      rcases mem_putRow.1 hr' with rfl | ⟨hr', _⟩
      · exact h.pending _ _ _ hpend hne
      · exact h.rows r hr' hne
    · rw [hp] at hpend'
      rcases of_update_eq_some hpend' with ⟨-, hx⟩ | ⟨-, hpend'⟩
      · cases hx
      · exact h.pending _ _ _ hpend' hne
  | rollback hr hp =>
    refine ⟨hr ▸ h.rows, fun key writer row hpend' hne => ?_⟩
    rw [hp] at hpend'
    rcases of_update_eq_some hpend' with ⟨-, hx⟩ | ⟨-, hpend'⟩
    · cases hx
    · exact h.pending _ _ _ hpend' hne

/-- A tombstone is reported as erased. -/
theorem KeysInv.getKey (h : KeysInv w) (hk : key ∈ w.erased) (adapter : PgKmsAdapter)
    (hs : subjectIdToKey subject = .ok key) :
    adapter.getKey aes w.rows subject = .error (.keyErased subject) := by
  obtain ⟨row, hf, hne⟩ := h.erased key hk
  obtain ⟨t, ht⟩ := Option.ne_none_iff_exists'.1 hne
  simp only [PgKmsAdapter.getKey, hs, hf, ht]

theorem Erased.of_inv (h : KeysInv w) (ht : TombstoneInv w) (hk : key ∈ w.erased) :
    Erased aes w key := by
  obtain ⟨row, hf, hne⟩ := h.erased key hk
  refine ⟨fun r hr hid => ?_, fun writer r hpend => ?_, fun a subject hs => h.getKey hk a hs⟩
  · have hfound := h.found r hr
    rw [hid, hf] at hfound
    cases hfound
    exact ht.rows row hr hne
  · exact ht.pending _ _ _ hpend (h.pending_keeps _ _ _ _ hpend hf hne)

/-- In every run whose rotations write to no tombstone, a key is gone for good once its erase has
committed. -/
theorem erased_of_run (hr : Run (subjectKeysStep aes) (RewrapOk aes) .start w)
    (hk : key ∈ w.erased) : Erased aes w key := by
  have ⟨h, ht⟩ := hr.invariant (I := fun w => KeysInv w ∧ TombstoneInv w)
    ⟨keysInv_start, tombstoneInv_start⟩
    fun _ _ _ h hok hs => ⟨h.1.step (.of_step hs), h.2.step hok (.of_step hs)⟩
  exact .of_inv h ht hk

end

/-! ## The key that comes back -/

/-- A cipher that authenticates its key. -/
def plainCipher : AesGcm where
  encipher key _ plaintext := (plaintext, key.take tagLength)
  decipher key _ ciphertext tag := if tag = key.take tagLength then some ciphertext else none

/-- A platform key. -/
def someKek (b : UInt8) : Kek := ⟨List.replicate 32 b, List.length_replicate⟩

/-- The adapter before the rotation. -/
def someAdapter : PgKmsAdapter where
  kek := someKek 1
  kekVersion := 1
  previousKeks := []
  previous_older := fun _ h => nomatch h

/-- The rotation from version 1 to version 2. -/
def someRotation : RewrapOptions :=
  { fromKeks := [(1, someKek 1)], toKek := someKek 2, toKekVersion := 2, batchSize := 200
    dryRun := false }

/-- A subject gets a key, and a rotation reads it; `rest` is what happens then. -/
def rotateDuring (rest : List SubjectKeysAct) : List SubjectKeysAct :=
  [.createKey someAdapter (.user "u") ⟨none, none⟩ (List.replicate 12 7) (List.replicate 32 9) 0,
    .commit "user:u", .startRewrap 0 someRotation, .selectBatch 0] ++ rest

/-- The rotation rewraps the key before the erase. -/
theorem erased_of_run_rotateFirst : ∃ w : SubjectKeys, Erased plainCipher w "user:u" ∧
    w.rows.map (·.kekVersion) = [2] := by
  have ⟨w, hr, hw⟩ := exists_run_of_execOk (subjectKeysStep plainCipher)
    (fun w a => RewrapOk plainCipher w a) .start
    (rotateDuring [.rewrapRow 0 (List.replicate 12 8), .commit "user:u",
      .eraseKey someAdapter (.user "u") ⟨none, none⟩ 1, .commit "user:u"])
    (fun w => w.erased.contains "user:u" && w.rows.map (·.kekVersion) == [2])
    (fun _ _ => of_decide_eq_true) (by decide +kernel) (by decide +kernel)
  simp only [Bool.and_eq_true, List.contains_iff_mem, beq_iff_eq] at hw
  exact ⟨w, erased_of_run hr hw.1, hw.2⟩

/-- The erase commits between the rotation's read and its write: the tombstone gets the wrapped key
back. -/
theorem not_erased : ¬ ∀ (aes : AesGcm) (w : SubjectKeys),
    Run (subjectKeysStep aes) (fun _ _ => True) .start w → ∀ key ∈ w.erased, Erased aes w key :=
  fun h => by
  have ⟨w, hr, hw⟩ := exists_run_of_exec (subjectKeysStep plainCipher) .start
    (rotateDuring [.eraseKey someAdapter (.user "u") ⟨none, none⟩ 1, .commit "user:u",
      .rewrapRow 0 (List.replicate 12 8), .commit "user:u"])
    (fun w => w.erased.contains "user:u" &&
      w.rows.any fun row => row.subjectId == "user:u" && row.cipherKey.isSome)
    (by decide +kernel)
  simp only [Bool.and_eq_true, List.contains_iff_mem, List.any_eq_true, beq_iff_eq] at hw
  obtain ⟨hk, row, hrow, hid, hsome⟩ := hw
  rw [(h _ w hr _ hk).no_key row hrow hid] at hsome
  cases hsome

end Kumiko
