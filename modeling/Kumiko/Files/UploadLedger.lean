import Mathlib.Data.List.Sort
import Kumiko.Library.Run

/-!
# Bytes, fileRef rows and the upload ledger

`create-file-ref.ts`, `upload-ledger.ts`, `sweep-orphaned-uploads.ts` and `purge-expired-file-ref-bytes.ts` of
`files`, for one tenant. An upload records its key in the ledger, writes the bytes, and creates its row and
takes the entry in one transaction; the storage takes part in none. Without five orders of steps every live row
has its bytes and every stored object is named (`uploadsKept_of_run`).
-/

namespace Kumiko

open Transition

/-! ## The stores -/

/-- Reference: `fileUploadLedgerTable`. -/
structure UploadEntry where
  storageKey : String
  createdAt : ℤ

/-- Reference: `fileRefEntity`, what the purge and the upload read. -/
structure FileRefRow where
  id : String
  storageKey : String
  isDeleted : Bool
  deletedAt : Option ℤ

/-- The storage and the two tables. The last three fields are no state of the code: the rows that were ever
committed, the keys whose bytes a sweep has deleted since they were written, and those whose bytes a purge has. -/
structure FileStores where
  now : ℤ
  stored : List String
  ledger : List UploadEntry
  rows : List FileRefRow
  created : List (String × String)
  swept : List String
  purged : List String

namespace FileStores

variable (d : FileStores)

def HasEntry (key : String) : Prop := ∃ entry ∈ d.ledger, entry.storageKey = key

def HasRow (key : String) : Prop := ∃ row ∈ d.rows, row.storageKey = key

instance (key : String) : Decidable (d.HasEntry key) := inferInstanceAs (Decidable (∃ entry ∈ _, _))

instance (key : String) : Decidable (d.HasRow key) := inferInstanceAs (Decidable (∃ row ∈ _, _))

/-- Reference: `FileUploadLedger.record`. -/
def record (key : String) : FileStores := { d with ledger := d.ledger ++ [⟨key, d.now⟩] }

/-- Reference: `FileUploadLedger.forget`, `takeUploadLedgerEntry`. -/
def forgetEntry (key : String) : FileStores := { d with ledger := d.ledger.filter (·.storageKey ≠ key) }

/-- Reference: `FileStorageProvider.write`. -/
def write (key : String) : FileStores := { d with stored := key :: d.stored, swept := d.swept.filter (· ≠ key) }

/-- Reference: `FileStorageProvider.delete`. -/
def deleteBytes (key : String) : FileStores := { d with stored := d.stored.filter (· ≠ key) }

/-- Reference: `createFileRefRow`. -/
def createRow (id key : String) : FileStores :=
  { d.forgetEntry key with
    rows := d.rows ++ [⟨id, key, false, none⟩]
    created := d.created ++ [(id, key)] }

/-- The delete of a sweep. -/
def sweepBytes (key : String) : FileStores := { d.deleteBytes key with swept := key :: d.swept }

/-- The delete of a purge. -/
def purgeBytes (key : String) : FileStores := { d.deleteBytes key with purged := key :: d.purged }

/-- Reference: `forgetRow`. -/
def forgetRow (id : String) : FileStores := { d with rows := d.rows.filter (·.id ≠ id) }

/-- Reference: `delete` of the executor on a soft-delete entity. -/
def softDelete (id : String) : FileStores :=
  { d with
    rows := d.rows.map fun row =>
      if row.id = id ∧ row.isDeleted = false then { row with isDeleted := true, deletedAt := some d.now } else row }

/-- Reference: `restore` of the executor. -/
def restore (id : String) : FileStores :=
  { d with
    rows := d.rows.map fun row =>
      if row.id = id ∧ row.isDeleted = true then { row with isDeleted := false, deletedAt := none } else row }

/-- A page of the ledger behind the cursor. Reference: `sweepOrphanedUploads`. -/
def sweepPage (cutoff : ℤ) (cursor : Option String) (pageSize : ℕ) : List String :=
  (((d.ledger.filter fun entry => entry.createdAt < cutoff ∧ cursor.all (· < entry.storageKey)).map
    (·.storageKey)).insertionSort (· ≤ ·)).take pageSize

/-- The order of `PAGE_ORDER`. -/
def pageOrder (a b : FileRefRow) : Prop :=
  a.deletedAt.getD 0 < b.deletedAt.getD 0 ∨ a.deletedAt.getD 0 = b.deletedAt.getD 0 ∧ a.id ≤ b.id

instance : DecidableRel pageOrder := fun _ _ => inferInstanceAs (Decidable (_ ∨ _))

/-- The expired soft-deleted rows that meet a bound. -/
def expiredRows (expiredBefore : ℤ) (bound : FileRefRow → Bool) : List FileRefRow :=
  (d.rows.filter fun row => row.isDeleted && row.deletedAt.any (· < expiredBefore) && bound row).insertionSort
    pageOrder

/-- Reference: `selectNextPage`. -/
def selectNextPage (expiredBefore : ℤ) (cursor : Option FileRefRow) (pageSize : ℕ) : List FileRefRow :=
  match cursor with
  | none => (d.expiredRows expiredBefore fun _ => true).take pageSize
  | some cursor =>
    let sameInstant := (d.expiredRows expiredBefore fun row =>
      row.deletedAt = cursor.deletedAt ∧ cursor.id < row.id).take pageSize
    if pageSize ≤ sameInstant.length then sameInstant
    else sameInstant ++ (d.expiredRows expiredBefore fun row =>
      row.deletedAt.any fun deletedAt => cursor.deletedAt.any (· < deletedAt)).take (pageSize - sameInstant.length)

/-- Every live row has its bytes, and every stored object is named by a row or by a ledger entry. -/
structure Kept (d : FileStores) : Prop where
  bytes : ∀ row ∈ d.rows, row.isDeleted = false → row.storageKey ∈ d.stored
  named : ∀ key ∈ d.stored, d.HasRow key ∨ d.HasEntry key

end FileStores

/-! ## The actors -/

/-- In which transaction the row is created: one of its own, that of the handler around it, or one that begins after
the upload. Reference: `rowInOwnTransaction`, `uploadFileBytesBeforeTransaction`. -/
inductive RowTransaction where
  | own
  | enclosing
  | afterUpload
  deriving DecidableEq

/-- A run of the sweep: its cutoff, its cursor and the keys of its page that are left. -/
structure SweepRun where
  cutoff : ℤ
  cursor : Option String
  rest : List String

/-- A run of the purge: its cutoff, its cursor, the rows of its page that are left, and those whose bytes are
deleted. -/
structure PurgeRun where
  expiredBefore : ℤ
  cursor : Option FileRefRow
  rest : List FileRefRow
  purgedIds : List FileRefRow

/-- Before which step an actor is. -/
inductive FilePhase where
  | record (mode : RowTransaction) (key : String)
  | write (mode : RowTransaction) (key : String)
  | create (mode : RowTransaction) (key : String)
  /-- The transaction of a row that was uploaded before it has failed. -/
  | release (key : String)
  | deleteBytes (mode : RowTransaction) (key : String)
  | forget (key : String)
  | sweep (run : SweepRun)
  /-- The ledger entry is taken by a transaction that has not ended. -/
  | sweepDelete (run : SweepRun) (key : String)
  | sweepCommit (run : SweepRun) (key : String)
  | purge (run : PurgeRun)

/-- The key of an upload. -/
def FilePhase.uploadKey : FilePhase → Option String
  | .record _ key | .write _ key | .create _ key | .release key | .deleteBytes _ key | .forget key => some key
  | .sweep _ | .sweepDelete .. | .sweepCommit .. | .purge _ => none

/-- The ledger entry that is locked. -/
def FilePhase.holds : FilePhase → Option String
  | .sweepDelete _ key | .sweepCommit _ key => some key
  | _ => none

/-- How a transaction ends: the create fails in it, or its commit succeeds, fails, or succeeds unheard. -/
inductive TransactionEnd where
  | failed
  | committed
  | rolledBack
  | acknowledgmentLost

def TransactionEnd.commits : TransactionEnd → Bool
  | .committed | .acknowledgmentLost => true
  | .failed | .rolledBack => false

/-- How `deleteFileRefBytes` ends: a key may fail before or after the original is deleted. -/
inductive DeleteEnd where
  | done
  | failed (originalDeleted : Bool)
  deriving DecidableEq

def DeleteEnd.deletes : DeleteEnd → Bool
  | .done => true
  | .failed originalDeleted => originalDeleted

inductive FileAct (n : ℕ) where
  | tick (ms : ℕ)
  | startUpload (k : Fin n) (mode : RowTransaction) (key : String)
  | record (k : Fin n) (acknowledged : Bool)
  | write (k : Fin n) (stored acknowledged : Bool)
  | transact (k : Fin n) (id : String) (ending : TransactionEnd)
  | release (k : Fin n)
  | deleteBytes (k : Fin n) (deleted : Bool)
  | forget (k : Fin n)
  | startSweep (k : Fin n) (graceHours : ℕ)
  | sweepPage (k : Fin n) (pageSize : ℕ)
  | takeEntry (k : Fin n)
  | sweepBytes (k : Fin n) (ending : DeleteEnd)
  | endSweep (k : Fin n) (committed : Bool)
  | startPurge (k : Fin n) (graceDays : ℕ)
  | purgePage (k : Fin n) (pageSize : ℕ)
  | purgeBytes (k : Fin n) (ending : DeleteEnd)
  | forgetRow (k : Fin n) (forgotten : Bool)
  | crash (k : Fin n)
  | softDelete (id : String)
  | restore (id : String)

/-- The stores, the actors and the keys that were generated. -/
structure FileWorld (n : ℕ) where
  stores : FileStores
  phases : Fin n → Option FilePhase
  issued : List String

namespace FileWorld

variable {n : ℕ} (s : FileWorld n)

def initial (now : ℤ) : FileWorld n := ⟨⟨now, [], [], [], [], [], []⟩, fun _ => none, []⟩

def go (k : Fin n) (stores : FileStores) (phase : Option FilePhase) : FileWorld n :=
  { s with stores, phases := Function.update s.phases k phase }

/-- A sweep holds the ledger entry. -/
def Locked (key : String) : Prop := ∃ k, (s.phases k).bind FilePhase.holds = some key

instance (key : String) : Decidable (s.Locked key) := inferInstanceAs (Decidable (Exists _))

/-- What an upload does when its transaction has ended. Reference: `storeFileAsFileRef`, the `release` of
`uploadFileBytesBeforeTransaction`. -/
def afterTransaction (key : String) : RowTransaction → TransactionEnd → Option FilePhase
  | _, .committed => none
  | .own, _ => some (.deleteBytes .own key)
  | .enclosing, .failed => some (.deleteBytes .enclosing key)
  | .enclosing, _ => none
  | .afterUpload, _ => some (.release key)

def step : FileAct n → Option (FileWorld n)
  | .tick ms => some { s with stores := { s.stores with now := s.stores.now + ms } }
  | .startUpload k mode key =>
    if (s.phases k).isSome ∨ key ∈ s.issued then none
    else some { s.go k s.stores (some (.record mode key)) with issued := key :: s.issued }
  | .record k acknowledged =>
    match s.phases k with
    | some (.record mode key) =>
      some (s.go k (s.stores.record key) (if acknowledged then some (.write mode key) else none))
    | _ => none
  | .write k stored acknowledged =>
    match s.phases k with
    | some (.write mode key) =>
      if acknowledged ∧ stored = false then none
      else some (s.go k (if stored then s.stores.write key else s.stores)
        (if acknowledged then some (.create mode key) else none))
    | _ => none
  | .transact k id ending =>
    match s.phases k with
    | some (.create mode key) =>
      if ending.commits then
        -- The delete of the ledger entry waits for a sweep that holds it, and fails where the sweep has taken it.
        if s.Locked key ∨ ¬s.stores.HasEntry key ∨ id ∈ s.stores.created.map (·.1) then none
        else some (s.go k (s.stores.createRow id key) (afterTransaction key mode ending))
      else some (s.go k s.stores (afterTransaction key mode ending))
    | _ => none
  | .release k =>
    match s.phases k with
    | some (.release key) =>
      some (s.go k s.stores (if s.stores.HasRow key then none else some (.deleteBytes .afterUpload key)))
    | _ => none
  | .deleteBytes k deleted =>
    match s.phases k with
    | some (.deleteBytes _ key) =>
      if deleted then some (s.go k (s.stores.deleteBytes key) (some (.forget key)))
      else some (s.go k s.stores none)
    | _ => none
  | .forget k =>
    match s.phases k with
    | some (.forget key) => if s.Locked key then none else some (s.go k (s.stores.forgetEntry key) none)
    | _ => none
  | .startSweep k graceHours =>
    if (s.phases k).isSome ∨ graceHours < 1 then none
    else some (s.go k s.stores (some (.sweep ⟨s.stores.now - graceHours * 3600000, none, []⟩)))
  | .sweepPage k pageSize =>
    match s.phases k with
    | some (.sweep ⟨cutoff, cursor, []⟩) =>
      let page := s.stores.sweepPage cutoff cursor pageSize
      some (s.go k s.stores (page.getLast?.map fun last => .sweep ⟨cutoff, some last, page⟩))
    | _ => none
  | .takeEntry k =>
    match s.phases k with
    | some (.sweep ⟨cutoff, cursor, key :: rest⟩) =>
      if s.Locked key then none
      else if ¬s.stores.HasEntry key then some (s.go k s.stores (some (.sweep ⟨cutoff, cursor, rest⟩)))
      else if s.stores.HasRow key then some (s.go k s.stores (some (.sweepCommit ⟨cutoff, cursor, rest⟩ key)))
      else some (s.go k s.stores (some (.sweepDelete ⟨cutoff, cursor, rest⟩ key)))
    | _ => none
  | .sweepBytes k ending =>
    match s.phases k with
    | some (.sweepDelete run key) =>
      some (s.go k (if ending.deletes then s.stores.sweepBytes key else s.stores)
        (if ending = .done then some (.sweepCommit run key) else some (.sweep run)))
    | _ => none
  | .endSweep k committed =>
    match s.phases k with
    | some (.sweepCommit run key) =>
      some (s.go k (if committed then s.stores.forgetEntry key else s.stores) (some (.sweep run)))
    | _ => none
  | .startPurge k graceDays =>
    if (s.phases k).isSome then none
    else some (s.go k s.stores (some (.purge ⟨s.stores.now - graceDays * 24 * 3600000, none, [], []⟩)))
  | .purgePage k pageSize =>
    match s.phases k with
    | some (.purge ⟨expiredBefore, cursor, [], []⟩) =>
      let page := s.stores.selectNextPage expiredBefore cursor pageSize
      some (s.go k s.stores (page.getLast?.map fun last => .purge ⟨expiredBefore, some last, page, []⟩))
    | _ => none
  | .purgeBytes k ending =>
    match s.phases k with
    | some (.purge ⟨expiredBefore, cursor, row :: rest, purgedIds⟩) =>
      some (s.go k (if ending.deletes then s.stores.purgeBytes row.storageKey else s.stores)
        (some (.purge ⟨expiredBefore, cursor, rest, if ending = .done then purgedIds ++ [row] else purgedIds⟩)))
    | _ => none
  | .forgetRow k forgotten =>
    match s.phases k with
    | some (.purge ⟨expiredBefore, cursor, [], row :: purgedIds⟩) =>
      some (s.go k (if forgotten then s.stores.forgetRow row.id else s.stores)
        (some (.purge ⟨expiredBefore, cursor, [], purgedIds⟩)))
    | _ => none
  | .crash k => some (s.go k s.stores none)
  | .softDelete id => some { s with stores := s.stores.softDelete id }
  | .restore id => some { s with stores := s.stores.restore id }

/-! ## The condition -/

/-- No step is too late:
bytes are written before a sweep has taken the ledger entry, and a transaction commits before a sweep has deleted
its bytes; a failed create deletes bytes only where no row of them was committed; a purge deletes the bytes of a row
that was not restored since it was read; and a row is restored before a purge has deleted its bytes. -/
def InTime (s : FileWorld n) : FileAct n → Prop
  | .write k stored _ => ∀ mode key, stored = true → s.phases k = some (.write mode key) →
      s.stores.HasEntry key ∧ ∀ k' run, s.phases k' ≠ some (.sweepCommit run key)
  | .transact k _ ending => ∀ mode key, ending.commits = true → s.phases k = some (.create mode key) →
      key ∉ s.stores.swept
  | .deleteBytes k deleted => ∀ key, deleted = true → s.phases k = some (.deleteBytes .own key) →
      ¬s.stores.HasRow key
  | .purgeBytes k ending => ∀ expiredBefore cursor row rest purgedIds, ending.deletes = true →
      s.phases k = some (.purge ⟨expiredBefore, cursor, row :: rest, purgedIds⟩) →
      ∀ r ∈ s.stores.rows, r.id = row.id → r.isDeleted = true
  | .restore id => ∀ row ∈ s.stores.rows, row.id = id → row.storageKey ∉ s.stores.purged
  | _ => True

/-! ## What every run in time maintains -/

end FileWorld

namespace FileStores

/-- No row with the key was ever committed. -/
def Uncreated (d : FileStores) (key : String) : Prop := ∀ c ∈ d.created, c.2 ≠ key

/-- What the stores know of the keys. -/
structure Ok (d : FileStores) : Prop where
  createdKeys : (d.created.map (·.2)).Nodup
  createdIds : (d.created.map (·.1)).Nodup
  rows : ∀ row ∈ d.rows, (row.id, row.storageKey) ∈ d.created
  entries : ∀ key, d.HasEntry key → d.Uncreated key
  bytes : ∀ row ∈ d.rows, row.storageKey ∈ d.stored ∨ row.isDeleted = true ∧ row.storageKey ∈ d.purged
  named : ∀ key ∈ d.stored, d.HasRow key ∨ d.HasEntry key

/-- What the stores know of the rows of a purge. -/
structure PurgeOk (d : FileStores) (run : PurgeRun) : Prop where
  rest : ∀ row ∈ run.rest, (row.id, row.storageKey) ∈ d.created
  purgedIds : ∀ row ∈ run.purgedIds, (row.id, row.storageKey) ∈ d.created ∧ row.storageKey ∉ d.stored

end FileStores

/-- What an actor may rely on before its step. -/
def FilePhase.Ok (d : FileStores) : FilePhase → Prop
  | .record _ key | .write _ key => d.Uncreated key
  | .create _ key => d.Uncreated key ∧ (key ∈ d.stored ∨ key ∈ d.swept)
  | .release _ => True
  | .deleteBytes mode key => mode ≠ .own → ¬d.HasRow key
  | .forget key => key ∉ d.stored
  | .sweep _ => True
  | .sweepDelete _ key => d.HasEntry key
  | .sweepCommit _ key => d.HasEntry key ∧ key ∉ d.stored
  | .purge run => d.PurgeOk run

/-- The invariant: no two actors have a key of an upload, or the lock of an entry. -/
structure FileWorld.Inv {n : ℕ} (s : FileWorld n) : Prop where
  stores : s.stores.Ok
  phases : ∀ k phase, s.phases k = some phase → phase.Ok s.stores
  once : ∀ k k' key, (s.phases k).bind FilePhase.uploadKey = some key →
    (s.phases k').bind FilePhase.uploadKey = some key → k' = k
  locks : ∀ k k' key, (s.phases k).bind FilePhase.holds = some key →
    (s.phases k').bind FilePhase.holds = some key → k' = k
  issued : ∀ k key, (s.phases k).bind FilePhase.uploadKey = some key → key ∈ s.issued
  created : ∀ c ∈ s.stores.created, c.2 ∈ s.issued

/-! ## What a write of the stores leaves -/

namespace FileStores

variable {d : FileStores} {key key' id : String} {row : FileRefRow}

@[simp] theorem hasEntry_forgetEntry : (d.forgetEntry key).HasEntry key' ↔ d.HasEntry key' ∧ key' ≠ key := by
  constructor
  · rintro ⟨entry, hentry, rfl⟩
    obtain ⟨hmem, hne⟩ := List.mem_filter.1 hentry
    exact ⟨⟨entry, hmem, rfl⟩, of_decide_eq_true hne⟩
  · rintro ⟨⟨entry, hentry, rfl⟩, hne⟩
    exact ⟨entry, List.mem_filter.2 ⟨hentry, decide_eq_true hne⟩, rfl⟩

@[simp] theorem hasEntry_record : (d.record key).HasEntry key' ↔ d.HasEntry key' ∨ key' = key := by
  simp [HasEntry, record, List.mem_append, or_and_right, exists_or, eq_comm]

@[simp] theorem hasRow_createRow : (d.createRow id key).HasRow key' ↔ d.HasRow key' ∨ key' = key := by
  simp [HasRow, createRow, List.mem_append, or_and_right, exists_or, eq_comm]

@[simp] theorem mem_write : key' ∈ (d.write key).stored ↔ key' = key ∨ key' ∈ d.stored := List.mem_cons

@[simp] theorem mem_write_swept : key' ∈ (d.write key).swept ↔ key' ∈ d.swept ∧ key' ≠ key := by
  simp [write, List.mem_filter]

@[simp] theorem mem_deleteBytes : key' ∈ (d.deleteBytes key).stored ↔ key' ∈ d.stored ∧ key' ≠ key := by
  simp [deleteBytes, List.mem_filter]

@[simp] theorem mem_sweepBytes : key' ∈ (d.sweepBytes key).stored ↔ key' ∈ d.stored ∧ key' ≠ key := mem_deleteBytes

@[simp] theorem mem_purgeBytes : key' ∈ (d.purgeBytes key).stored ↔ key' ∈ d.stored ∧ key' ≠ key := mem_deleteBytes

theorem mem_created_createRow {c : String × String} :
    c ∈ (d.createRow id key).created ↔ c ∈ d.created ∨ c = (id, key) := by
  simp [createRow, List.mem_append]

theorem uncreated_createRow : (d.createRow id key).Uncreated key' ↔ d.Uncreated key' ∧ key' ≠ key := by
  constructor
  · intro h
    exact ⟨fun c hc => h c (mem_created_createRow.2 (.inl hc)),
      fun heq => h (id, key) (mem_created_createRow.2 (.inr rfl)) heq.symm⟩
  · rintro ⟨h, hne⟩ c hc
    rcases mem_created_createRow.1 hc with hc | rfl
    · exact h c hc
    · exact hne.symm

theorem Ok.uncreated_of_row (h : d.Ok) (hkey : d.Uncreated key) : ¬d.HasRow key := by
  rintro ⟨row, hrow, rfl⟩
  exact hkey _ (h.rows row hrow) rfl

/-- A key that was created has one row id. -/
theorem Ok.id_of_key (h : d.Ok) {id id' : String} (hc : (id, key) ∈ d.created) (hc' : (id', key) ∈ d.created) :
    id = id' := congrArg Prod.fst (List.inj_on_of_nodup_map h.createdKeys hc hc' rfl)

theorem Ok.key_of_id (h : d.Ok) (hc : (id, key) ∈ d.created) (hc' : (id, key') ∈ d.created) : key = key' :=
  congrArg Prod.snd (List.inj_on_of_nodup_map h.createdIds hc hc' rfl)

/-- The bytes and the names, and nothing to break of what is known of the keys. -/
theorem Ok.kept (h : d.Ok) : d.Kept := by
  refine ⟨fun row hrow hlive => ?_, h.named⟩
  rcases h.bytes row hrow with hstored | ⟨hdeleted, _⟩
  · exact hstored
  · rw [hlive] at hdeleted
    cases hdeleted

theorem Ok.record (h : d.Ok) (hkey : d.Uncreated key) : (d.record key).Ok := by
  refine ⟨h.createdKeys, h.createdIds, h.rows, fun key' hentry => ?_, h.bytes, fun key' hkey' => ?_⟩
  · rcases hasEntry_record.1 hentry with hentry | rfl
    · exact h.entries key' hentry
    · exact hkey
  · exact (h.named key' hkey').imp id fun hentry => hasEntry_record.2 (.inl hentry)

theorem Ok.write (h : d.Ok) (hentry : d.HasEntry key) : (d.write key).Ok := by
  refine ⟨h.createdKeys, h.createdIds, h.rows, h.entries, fun row hrow => ?_, fun key' hkey' => ?_⟩
  · exact (h.bytes row hrow).imp (fun hstored => mem_write.2 (.inr hstored)) id
  · rcases mem_write.1 hkey' with rfl | hkey'
    · exact .inr hentry
    · exact h.named key' hkey'

theorem Ok.createRow (h : d.Ok) (hentry : d.HasEntry key) (hstored : key ∈ d.stored)
    (hid : id ∉ d.created.map (·.1)) : (d.createRow id key).Ok := by
  have huncreated := h.entries key hentry
  refine ⟨?_, ?_, fun row hrow => ?_, fun key' hentry' => ?_, fun row hrow => ?_, fun key' hkey' => ?_⟩
  · show ((d.created ++ [(id, key)]).map (·.2)).Nodup
    rw [List.map_append, List.nodup_append]
    refine ⟨h.createdKeys, List.nodup_singleton _, fun x hx y hy heq => ?_⟩
    obtain ⟨c, hc, rfl⟩ := List.mem_map.1 hx
    exact huncreated c hc (heq.trans (List.mem_singleton.1 hy))
  · show ((d.created ++ [(id, key)]).map (·.1)).Nodup
    rw [List.map_append, List.nodup_append]
    refine ⟨h.createdIds, List.nodup_singleton _, fun x hx y hy heq => hid ?_⟩
    have hxid : x = id := heq.trans (List.mem_singleton.1 hy)
    exact hxid ▸ hx
  · rcases List.mem_append.1 hrow with hrow | hrow
    · exact mem_created_createRow.2 (.inl (h.rows row hrow))
    · rw [List.mem_singleton.1 hrow]
      exact mem_created_createRow.2 (.inr rfl)
  · obtain ⟨hentry', hne⟩ := hasEntry_forgetEntry.1 hentry'
    exact uncreated_createRow.2 ⟨h.entries key' hentry', hne⟩
  · rcases List.mem_append.1 hrow with hrow | hrow
    · exact h.bytes row hrow
    · rw [List.mem_singleton.1 hrow]
      exact .inl hstored
  · by_cases hne : key' = key
    · exact .inl (hasRow_createRow.2 (.inr hne))
    · rcases h.named key' hkey' with hrow | hentry'
      · exact .inl (hasRow_createRow.2 (.inl hrow))
      · exact .inr (hasEntry_forgetEntry.2 ⟨hentry', hne⟩)

/-- Bytes that no row names may go. -/
theorem Ok.deleteBytes (h : d.Ok) (hrow : ¬d.HasRow key) : (d.deleteBytes key).Ok := by
  refine ⟨h.createdKeys, h.createdIds, h.rows, h.entries, fun row hmem => ?_,
    fun key' hkey' => h.named key' (mem_deleteBytes.1 hkey').1⟩
  have hne : row.storageKey ≠ key := fun heq => hrow ⟨row, hmem, heq⟩
  exact (h.bytes row hmem).imp (fun hstored => mem_deleteBytes.2 ⟨hstored, hne⟩) id

theorem Ok.sweepBytes (h : d.Ok) (hrow : ¬d.HasRow key) : (d.sweepBytes key).Ok := by
  obtain ⟨createdKeys, createdIds, rows, entries, bytes, named⟩ := h.deleteBytes hrow
  exact ⟨createdKeys, createdIds, rows, entries, bytes, named⟩

/-- Bytes may go to the purge while their row is soft-deleted. -/
theorem Ok.purgeBytes (h : d.Ok) (hcreated : (row.id, row.storageKey) ∈ d.created)
    (hdeleted : ∀ r ∈ d.rows, r.id = row.id → r.isDeleted = true) : (d.purgeBytes row.storageKey).Ok := by
  refine ⟨h.createdKeys, h.createdIds, h.rows, h.entries, fun r hr => ?_,
    fun key' hkey' => h.named key' (mem_purgeBytes.1 hkey').1⟩
  by_cases hkey : r.storageKey = row.storageKey
  · have hid : r.id = row.id := h.id_of_key (hkey ▸ h.rows r hr) hcreated
    exact .inr ⟨hdeleted r hr hid, List.mem_cons.2 (.inl hkey)⟩
  · rcases h.bytes r hr with hstored | ⟨hgone, hpurged⟩
    · exact .inl (mem_purgeBytes.2 ⟨hstored, hkey⟩)
    · exact .inr ⟨hgone, List.mem_cons_of_mem _ hpurged⟩

theorem Ok.forgetEntry (h : d.Ok) (hstored : key ∉ d.stored) : (d.forgetEntry key).Ok := by
  refine ⟨h.createdKeys, h.createdIds, h.rows, fun key' hentry => h.entries key' (hasEntry_forgetEntry.1 hentry).1,
    h.bytes, fun key' hkey' => (h.named key' hkey').imp id fun hentry => ?_⟩
  exact hasEntry_forgetEntry.2 ⟨hentry, fun heq => hstored (heq ▸ hkey')⟩

/-- A row may go when its bytes are gone. -/
theorem Ok.forgetRow (h : d.Ok) (hcreated : (row.id, row.storageKey) ∈ d.created)
    (hstored : row.storageKey ∉ d.stored) : (d.forgetRow row.id).Ok := by
  refine ⟨h.createdKeys, h.createdIds, fun r hr => h.rows r (List.mem_of_mem_filter hr), h.entries,
    fun r hr => h.bytes r (List.mem_of_mem_filter hr), fun key' hkey' => (h.named key' hkey').imp ?_ id⟩
  rintro ⟨r, hr, rfl⟩
  refine ⟨r, List.mem_filter.2 ⟨hr, decide_eq_true fun hid => hstored ?_⟩, rfl⟩
  have hkey : r.storageKey = row.storageKey := h.key_of_id (hid ▸ h.rows r hr) hcreated
  exact hkey ▸ hkey'

/-- The rows keep their ids and keys, and a purged one stays deleted. -/
theorem Ok.mapRows (h : d.Ok) {f : FileRefRow → FileRefRow} (hid : ∀ r, (f r).id = r.id)
    (hkey : ∀ r, (f r).storageKey = r.storageKey)
    (hdeleted : ∀ r ∈ d.rows, r.isDeleted = true → r.storageKey ∈ d.purged → (f r).isDeleted = true) :
    Ok { d with rows := d.rows.map f } := by
  refine ⟨h.createdKeys, h.createdIds, fun r hr => ?_, h.entries, fun r hr => ?_,
    fun key' hkey' => (h.named key' hkey').imp ?_ fun h => h⟩
  · obtain ⟨old, hold, rfl⟩ := List.mem_map.1 hr
    rw [hid, hkey]
    exact h.rows old hold
  · obtain ⟨old, hold, rfl⟩ := List.mem_map.1 hr
    rw [hkey]
    exact (h.bytes old hold).imp (fun h => h) fun hgone => ⟨hdeleted old hold hgone.1 hgone.2, hgone.2⟩
  · rintro ⟨r, hr, rfl⟩
    exact ⟨_, List.mem_map.2 ⟨r, hr, rfl⟩, hkey r⟩

theorem Ok.softDelete (h : d.Ok) : (d.softDelete id).Ok := by
  refine h.mapRows (fun r => ?_) (fun r => ?_) fun r _ hgone _ => ?_
  · split <;> rfl
  · split <;> rfl
  · split
    · rfl
    · exact hgone

theorem Ok.restore (h : d.Ok) (hpurged : ∀ row ∈ d.rows, row.id = id → row.storageKey ∉ d.purged) :
    (d.restore id).Ok := by
  refine h.mapRows (fun r => ?_) (fun r => ?_) fun r hr hgone hkey => ?_
  · split <;> rfl
  · split <;> rfl
  · split
    · next hcond => exact absurd hkey (hpurged r hr hcond.1)
    · exact hgone

end FileStores

/-- What an actor relies on survives a write of the stores that keeps what is known of its key. -/
theorem FilePhase.Ok.frame {d d' : FileStores} {phase : FilePhase} (h : phase.Ok d)
    (hupload : ∀ key, phase.uploadKey = some key → d.Uncreated key →
      d'.Uncreated key ∧ (key ∈ d.stored ∨ key ∈ d.swept → key ∈ d'.stored ∨ key ∈ d'.swept))
    (hrow : ∀ key, phase.uploadKey = some key → ¬d.HasRow key → ¬d'.HasRow key)
    (hstored : ∀ key, phase.uploadKey = some key → key ∉ d.stored → key ∉ d'.stored)
    (hentry : ∀ key, phase.holds = some key → d.HasEntry key → d'.HasEntry key)
    (hcommit : ∀ run key, phase = .sweepCommit run key → key ∉ d.stored → key ∉ d'.stored)
    (hcreated : ∀ c ∈ d.created, c ∈ d'.created ∧ (c.2 ∉ d.stored → c.2 ∉ d'.stored)) : phase.Ok d' := by
  cases phase with
  | record mode key => exact (hupload key rfl h).1
  | write mode key => exact (hupload key rfl h).1
  | create mode key => exact ⟨(hupload key rfl h.1).1, (hupload key rfl h.1).2 h.2⟩
  | release key => trivial
  | deleteBytes mode key => exact fun hmode => hrow key rfl (h hmode)
  | forget key => exact hstored key rfl h
  | sweep run => trivial
  | sweepDelete run key => exact hentry key rfl h
  | sweepCommit run key => exact ⟨hentry key rfl h.1, hcommit run key rfl h.2⟩
  | purge run =>
    refine ⟨fun row hmem => (hcreated _ (h.rest row hmem)).1, fun row hmem => ?_⟩
    obtain ⟨hc, hgone⟩ := h.purgedIds row hmem
    exact ⟨(hcreated _ hc).1, (hcreated _ hc).2 hgone⟩

namespace FileWorld

variable {n : ℕ} {s s' : FileWorld n} {k k' : Fin n} {phase phase' : FilePhase} {d : FileStores} {key id : String}
  {mode : RowTransaction} {expiredBefore : ℤ}

/-! ## One actor takes its step -/

/-- A step of one actor, from what it leaves to the others and what it goes on with. -/
theorem Inv.go (h : s.Inv) {next : Option FilePhase} (hd : d.Ok) (hcreated : ∀ c ∈ d.created, c.2 ∈ s.issued)
    (hothers : ∀ k' phase, k' ≠ k → s.phases k' = some phase → phase.Ok d)
    (hself : ∀ phase, next = some phase → phase.Ok d)
    (hkey : ∀ key, next.bind FilePhase.uploadKey = some key → (s.phases k).bind FilePhase.uploadKey = some key)
    (hholds : ∀ key, next.bind FilePhase.holds = some key →
      (s.phases k).bind FilePhase.holds = some key ∨ ¬s.Locked key) : (s.go k d next).Inv := by
  have hphases : ∀ k', (s.go k d next).phases k' = if k' = k then next else s.phases k' := fun k' =>
    Function.update_apply ..
  have hupload : ∀ k' key, ((s.go k d next).phases k').bind FilePhase.uploadKey = some key →
      (s.phases k').bind FilePhase.uploadKey = some key := by
    intro k' key hk'
    rw [hphases] at hk'
    split at hk'
    · next heq => exact heq ▸ hkey key hk'
    · exact hk'
  have hlock : ∀ k' k'' key, k' ≠ k → k'' = k → (s.phases k').bind FilePhase.holds = some key →
      next.bind FilePhase.holds = some key → False := by
    intro k' k'' key hne _ hk' hnext
    rcases hholds key hnext with hself | hfree
    · exact hne (h.locks k k' key hself hk')
    · exact hfree ⟨k', hk'⟩
  refine ⟨hd, fun k' phase hk' => ?_,
    fun k' k'' key hk' hk'' => h.once k' k'' key (hupload k' key hk') (hupload k'' key hk''),
    fun k' k'' key hk' hk'' => ?_, fun k' key hk' => h.issued k' key (hupload k' key hk'), hcreated⟩
  · rw [hphases] at hk'
    split at hk'
    · exact hself phase hk'
    · next hne => exact hothers k' phase hne hk'
  · rw [hphases] at hk' hk''
    split at hk'
    · next heq' =>
      split at hk''
      · next heq'' => exact heq''.trans heq'.symm
      · next hne => exact (hlock k'' k key hne rfl hk'' hk').elim
    · next hne =>
      split at hk''
      · exact (hlock k' k key hne rfl hk' hk'').elim
      · exact h.locks k' k'' key hk' hk''

/-- The stores stay as they are. -/
theorem Inv.setPhase (h : s.Inv) {next : Option FilePhase} (hself : ∀ phase, next = some phase → phase.Ok s.stores)
    (hkey : ∀ key, next.bind FilePhase.uploadKey = some key → (s.phases k).bind FilePhase.uploadKey = some key)
    (hholds : ∀ key, next.bind FilePhase.holds = some key →
      (s.phases k).bind FilePhase.holds = some key ∨ ¬s.Locked key) : (s.go k s.stores next).Inv :=
  h.go h.stores h.created (fun k' phase _ hk' => h.phases k' phase hk') hself hkey hholds

theorem Inv.setIdle (h : s.Inv) : (s.go k s.stores none).Inv :=
  h.setPhase (fun _ heq => nomatch heq) (fun _ heq => nomatch heq) fun _ heq => nomatch heq

/-- An upload is the only one with its key. -/
theorem Inv.ne_of_upload (h : s.Inv) (hphase : s.phases k = some phase) (hkey : phase.uploadKey = some key)
    (hne : k' ≠ k) (hphase' : s.phases k' = some phase') {key' : String} (hkey' : phase'.uploadKey = some key') :
    key' ≠ key := by
  rintro rfl
  refine hne (h.once k k' key' ?_ ?_)
  · rw [hphase]; exact hkey
  · rw [hphase']; exact hkey'

theorem ne_of_unlocked (hfree : ¬s.Locked key) (hphase : s.phases k = some phase) {key' : String}
    (hholds : phase.holds = some key') : key' ≠ key := by
  rintro rfl
  exact hfree ⟨k, by rw [hphase]; exact hholds⟩

theorem Inv.ne_of_holds (h : s.Inv) (hphase : s.phases k = some phase) (hkey : phase.holds = some key)
    (hne : k' ≠ k) (hphase' : s.phases k' = some phase') {key' : String} (hkey' : phase'.holds = some key') :
    key' ≠ key := by
  rintro rfl
  refine hne (h.locks k k' key' ?_ ?_)
  · rw [hphase]; exact hkey
  · rw [hphase']; exact hkey'

/-! ### The steps of an upload -/

theorem Inv.record (h : s.Inv) (hphase : s.phases k = some (.record mode key)) (acknowledged : Bool) :
    (s.go k (s.stores.record key) (if acknowledged then some (.write mode key) else none)).Inv := by
  have hok : s.stores.Uncreated key := h.phases k _ hphase
  refine h.go (h.stores.record hok) h.created (fun k' phase _ hk' => ?_) (fun phase heq => ?_) (fun key' heq => ?_)
    fun key' heq => ?_
  · exact (h.phases k' phase hk').frame (fun _ _ hc => ⟨hc, fun hs => hs⟩) (fun _ _ hr => hr) (fun _ _ hs => hs)
      (fun _ _ he => FileStores.hasEntry_record.2 (.inl he)) (fun _ _ _ hs => hs) fun _ hc => ⟨hc, fun hs => hs⟩
  · cases acknowledged with
    | false => cases heq
    | true => cases heq; exact hok
  · rw [hphase]
    cases acknowledged with
    | false => cases heq
    | true => exact heq
  · cases acknowledged with
    | false => cases heq
    | true => cases heq

theorem Inv.write (h : s.Inv) (hphase : s.phases k = some (.write mode key))
    (hentry : s.stores.HasEntry key) (hlate : ∀ k' run, s.phases k' ≠ some (.sweepCommit run key))
    (acknowledged : Bool) :
    (s.go k (s.stores.write key) (if acknowledged then some (.create mode key) else none)).Inv := by
  have hok : s.stores.Uncreated key := h.phases k _ hphase
  refine h.go (h.stores.write hentry) h.created (fun k' phase hne hk' => ?_) (fun phase heq => ?_) (fun key' heq => ?_)
    fun key' heq => ?_
  · have hupload : ∀ {key'}, phase.uploadKey = some key' → key' ≠ key := h.ne_of_upload hphase rfl hne hk'
    refine (h.phases k' phase hk').frame (fun key' hkey' hc => ⟨hc, fun hs => ?_⟩) (fun _ _ hr => hr)
      (fun key' hkey' hs hw => ?_) (fun _ _ he => he) (fun run key' heq hs hw => ?_) fun c hc => ⟨hc, fun hs hw => ?_⟩
    · exact hs.imp (fun hs => FileStores.mem_write.2 (.inr hs)) fun hs =>
        FileStores.mem_write_swept.2 ⟨hs, hupload hkey'⟩
    · exact (FileStores.mem_write.1 hw).elim (hupload hkey') hs
    · refine (FileStores.mem_write.1 hw).elim (fun hsame => ?_) hs
      rw [heq, hsame] at hk'
      exact hlate k' run hk'
    · exact (FileStores.mem_write.1 hw).elim (hok c hc) hs
  · cases acknowledged with
    | false => cases heq
    | true => cases heq; exact ⟨hok, .inl (FileStores.mem_write.2 (.inl rfl))⟩
  · rw [hphase]
    cases acknowledged with
    | false => cases heq
    | true => exact heq
  · cases acknowledged with
    | false => cases heq
    | true => cases heq

/-- What follows a transaction keeps the key, and may rely on its row only where there is none. -/
theorem afterTransaction_ok {ending : TransactionEnd}
    (hrow : ending.commits = false → ¬d.HasRow key) (hnext : afterTransaction key mode ending = some phase) :
    phase.Ok d ∧ phase.uploadKey = some key ∧ phase.holds = none := by
  cases mode with
  | own => cases ending <;> cases hnext <;> exact ⟨fun hmode => absurd rfl hmode, rfl, rfl⟩
  | enclosing => cases ending <;> cases hnext; exact ⟨fun _ => hrow rfl, rfl, rfl⟩
  | afterUpload => cases ending <;> cases hnext <;> exact ⟨trivial, rfl, rfl⟩

theorem Inv.transact (h : s.Inv) {ending : TransactionEnd}
    (hphase : s.phases k = some (.create mode key)) (hd : d.Ok) (hcreated : ∀ c ∈ d.created, c.2 ∈ s.issued)
    (hothers : ∀ k' phase, k' ≠ k → s.phases k' = some phase → phase.Ok d)
    (hrow : ending.commits = false → ¬d.HasRow key) : (s.go k d (afterTransaction key mode ending)).Inv := by
  refine h.go hd hcreated hothers (fun phase heq => (afterTransaction_ok hrow heq).1) (fun key' heq => ?_)
    fun key' heq => ?_
  · obtain ⟨phase, hnext, hkey'⟩ := Option.bind_eq_some_iff.1 heq
    rw [hphase, ← hkey']
    exact (afterTransaction_ok hrow hnext).2.1.symm
  · obtain ⟨phase, hnext, hkey'⟩ := Option.bind_eq_some_iff.1 heq
    rw [(afterTransaction_ok hrow hnext).2.2] at hkey'
    cases hkey'

theorem Inv.createRow (h : s.Inv) {ending : TransactionEnd}
    (hphase : s.phases k = some (.create mode key)) (hcommits : ending.commits = true) (hfree : ¬s.Locked key)
    (hentry : s.stores.HasEntry key) (hid : id ∉ s.stores.created.map (·.1)) (hswept : key ∉ s.stores.swept) :
    (s.go k (s.stores.createRow id key) (afterTransaction key mode ending)).Inv := by
  obtain ⟨hok, hbytes⟩ : s.stores.Uncreated key ∧ (key ∈ s.stores.stored ∨ key ∈ s.stores.swept) :=
    h.phases k _ hphase
  have hissued : key ∈ s.issued := h.issued k key (by rw [hphase]; rfl)
  refine h.transact hphase (h.stores.createRow hentry (hbytes.resolve_right hswept) hid) (fun c hc => ?_)
    (fun k' phase hne hk' => ?_) fun hnot => ?_
  · rcases FileStores.mem_created_createRow.1 hc with hc | rfl
    · exact h.created c hc
    · exact hissued
  · have hupload : ∀ {key'}, phase.uploadKey = some key' → key' ≠ key := h.ne_of_upload hphase rfl hne hk'
    refine (h.phases k' phase hk').frame
      (fun key' hkey' hc => ⟨FileStores.uncreated_createRow.2 ⟨hc, hupload hkey'⟩, fun hs => hs⟩)
      (fun key' hkey' hr hw => ?_) (fun _ _ hs => hs) (fun key' hholds he => ?_) (fun _ _ _ hs => hs)
      fun c hc => ⟨FileStores.mem_created_createRow.2 (.inl hc), fun hs => hs⟩
    · exact (FileStores.hasRow_createRow.1 hw).elim hr (hupload hkey')
    · exact FileStores.hasEntry_forgetEntry.2 ⟨he, ne_of_unlocked hfree hk' hholds⟩
  · rw [hcommits] at hnot
    cases hnot

theorem Inv.deleteBytes (h : s.Inv) (hphase : s.phases k = some (.deleteBytes mode key))
    (hrow : ¬s.stores.HasRow key) : (s.go k (s.stores.deleteBytes key) (some (.forget key))).Inv := by
  refine h.go (h.stores.deleteBytes hrow) h.created (fun k' phase hne hk' => ?_) (fun phase heq => ?_)
    (fun key' heq => ?_) fun key' heq => ?_
  · have hupload : ∀ {key'}, phase.uploadKey = some key' → key' ≠ key := h.ne_of_upload hphase rfl hne hk'
    exact (h.phases k' phase hk').frame
      (fun key' hkey' hc => ⟨hc, fun hs => hs.imp (fun hs => FileStores.mem_deleteBytes.2 ⟨hs, hupload hkey'⟩) id⟩)
      (fun _ _ hr => hr) (fun _ _ hs hw => hs (FileStores.mem_deleteBytes.1 hw).1) (fun _ _ he => he)
      (fun _ _ _ hs hw => hs (FileStores.mem_deleteBytes.1 hw).1)
      fun _ hc => ⟨hc, fun hs hw => hs (FileStores.mem_deleteBytes.1 hw).1⟩
  · cases heq
    exact fun hw => (FileStores.mem_deleteBytes.1 hw).2 rfl
  · rw [hphase]; exact heq
  · cases heq

/-- An entry may go when its bytes are gone and nobody else holds it. -/
theorem Inv.forgetEntry (h : s.Inv) {next : Option FilePhase} (hstored : key ∉ s.stores.stored)
    (hothers : ∀ k' phase, k' ≠ k → s.phases k' = some phase → ∀ key', phase.holds = some key' → key' ≠ key)
    (hself : ∀ phase, next = some phase → ∃ run, phase = .sweep run) :
    (s.go k (s.stores.forgetEntry key) next).Inv := by
  refine h.go (h.stores.forgetEntry hstored) h.created (fun k' phase hne hk' => ?_) (fun phase heq => ?_)
    (fun key' heq => ?_) fun key' heq => ?_
  · exact (h.phases k' phase hk').frame (fun _ _ hc => ⟨hc, fun hs => hs⟩) (fun _ _ hr => hr) (fun _ _ hs => hs)
      (fun key' hholds he => FileStores.hasEntry_forgetEntry.2 ⟨he, hothers k' phase hne hk' key' hholds⟩)
      (fun _ _ _ hs => hs) fun _ hc => ⟨hc, fun hs => hs⟩
  · obtain ⟨run, rfl⟩ := hself phase heq
    trivial
  · obtain ⟨phase, hnext, hkey'⟩ := Option.bind_eq_some_iff.1 heq
    obtain ⟨run, rfl⟩ := hself phase hnext
    cases hkey'
  · obtain ⟨phase, hnext, hkey'⟩ := Option.bind_eq_some_iff.1 heq
    obtain ⟨run, rfl⟩ := hself phase hnext
    cases hkey'

/-! ### The steps of a sweep and of a purge -/

theorem Inv.sweepBytes (h : s.Inv) {run : SweepRun} (hphase : s.phases k = some (.sweepDelete run key))
    (ending : DeleteEnd) :
    (s.go k (if ending.deletes then s.stores.sweepBytes key else s.stores)
      (if ending = .done then some (.sweepCommit run key) else some (.sweep run))).Inv := by
  have hentry : s.stores.HasEntry key := h.phases k _ hphase
  have hrow : ¬s.stores.HasRow key := h.stores.uncreated_of_row (h.stores.entries key hentry)
  have hothers : ∀ k' phase, k' ≠ k → s.phases k' = some phase → phase.Ok (s.stores.sweepBytes key) := by
    intro k' phase _ hk'
    refine (h.phases k' phase hk').frame (fun key' _ hc => ⟨hc, fun hs => ?_⟩) (fun _ _ hr => hr)
      (fun _ _ hs hw => hs (FileStores.mem_sweepBytes.1 hw).1) (fun _ _ he => he)
      (fun _ _ _ hs hw => hs (FileStores.mem_sweepBytes.1 hw).1)
      fun _ hc => ⟨hc, fun hs hw => hs (FileStores.mem_sweepBytes.1 hw).1⟩
    -- An upload whose bytes the sweep deletes finds its key among the swept ones.
    by_cases heq : key' = key
    · exact .inr (List.mem_cons.2 (.inl heq))
    · exact hs.imp (fun hs => FileStores.mem_sweepBytes.2 ⟨hs, heq⟩) (List.mem_cons_of_mem _)
  cases ending with
  | done =>
    refine h.go (h.stores.sweepBytes hrow) h.created hothers (fun phase heq => ?_) (fun _ heq => nomatch heq)
      fun key' heq => .inl ?_
    · cases heq
      exact ⟨hentry, fun hw => (FileStores.mem_sweepBytes.1 hw).2 rfl⟩
    · rw [hphase]; exact heq
  | failed originalDeleted =>
    cases originalDeleted with
    | true =>
      exact h.go (h.stores.sweepBytes hrow) h.created hothers (fun phase heq => by cases heq; trivial)
        (fun _ heq => nomatch heq) fun _ heq => nomatch heq
    | false =>
      exact h.setPhase (fun phase heq => by cases heq; trivial) (fun _ heq => nomatch heq) fun _ heq => nomatch heq

theorem Inv.endSweep (h : s.Inv) {run : SweepRun} (hphase : s.phases k = some (.sweepCommit run key))
    (committed : Bool) :
    (s.go k (if committed then s.stores.forgetEntry key else s.stores) (some (.sweep run))).Inv := by
  obtain ⟨_, hstored⟩ : s.stores.HasEntry key ∧ key ∉ s.stores.stored := h.phases k _ hphase
  cases committed with
  | false =>
    exact h.setPhase (fun phase heq => by cases heq; trivial) (fun _ heq => nomatch heq) fun _ heq => nomatch heq
  | true =>
    exact h.forgetEntry hstored (fun k' phase hne hk' key' => h.ne_of_holds hphase rfl hne hk')
      fun phase heq => ⟨run, (Option.some.inj heq).symm⟩

theorem takeEntry_ok (hstores : s.stores.Ok) (run : SweepRun) (hentry : s.stores.HasEntry key) :
    ¬s.stores.HasRow key ∧ (FilePhase.sweepDelete run key).Ok s.stores :=
  ⟨hstores.uncreated_of_row (hstores.entries key hentry), hentry⟩

theorem mem_expiredRows {bound : FileRefRow → Bool} {row : FileRefRow}
    (h : row ∈ d.expiredRows expiredBefore bound) : row ∈ d.rows :=
  List.mem_of_mem_filter ((List.mem_insertionSort _).1 h)

/-- A page holds rows of the table. -/
theorem mem_selectNextPage {cursor : Option FileRefRow} {pageSize : ℕ} {row : FileRefRow}
    (h : row ∈ d.selectNextPage expiredBefore cursor pageSize) : row ∈ d.rows := by
  unfold FileStores.selectNextPage at h
  split at h
  · exact mem_expiredRows (List.mem_of_mem_take h)
  · dsimp only at h
    split at h
    · exact mem_expiredRows (List.mem_of_mem_take h)
    · rcases List.mem_append.1 h with h | h
      · exact mem_expiredRows (List.mem_of_mem_take h)
      · exact mem_expiredRows (List.mem_of_mem_take h)

/-- A purge goes on with rows that it knows of. -/
theorem Inv.setPurge (h : s.Inv) {run : PurgeRun} (hd : d.Ok) (hcreated : ∀ c ∈ d.created, c.2 ∈ s.issued)
    (hothers : ∀ k' phase, k' ≠ k → s.phases k' = some phase → phase.Ok d) (hrun : d.PurgeOk run) :
    (s.go k d (some (.purge run))).Inv :=
  h.go hd hcreated hothers (fun phase heq => by cases heq; exact hrun) (fun _ heq => nomatch heq)
    fun _ heq => nomatch heq

theorem Inv.purgeBytes (h : s.Inv) {cursor : Option FileRefRow} {row : FileRefRow} {rest purgedIds : List FileRefRow}
    (hphase : s.phases k = some (.purge ⟨expiredBefore, cursor, row :: rest, purgedIds⟩)) {ending : DeleteEnd}
    (hdeleted : ending.deletes = true → ∀ r ∈ s.stores.rows, r.id = row.id → r.isDeleted = true) :
    (s.go k (if ending.deletes then s.stores.purgeBytes row.storageKey else s.stores)
      (some (.purge ⟨expiredBefore, cursor, rest, if ending = .done then purgedIds ++ [row] else purgedIds⟩))).Inv := by
  have hok : s.stores.PurgeOk ⟨expiredBefore, cursor, row :: rest, purgedIds⟩ := h.phases k _ hphase
  have hcreated := hok.rest row List.mem_cons_self
  have hgone : ∀ key, key ∉ s.stores.stored → key ∉ (s.stores.purgeBytes row.storageKey).stored :=
    fun key hs hw => hs (FileStores.mem_purgeBytes.1 hw).1
  have hothers : ∀ k' phase, k' ≠ k → s.phases k' = some phase → phase.Ok (s.stores.purgeBytes row.storageKey) := by
    intro k' phase _ hk'
    refine (h.phases k' phase hk').frame (fun key' _ hc => ⟨hc, fun hs => hs.imp (fun hs => ?_) id⟩)
      (fun _ _ hr => hr) (fun _ _ hs => hgone _ hs) (fun _ _ he => he) (fun _ _ _ hs => hgone _ hs)
      fun _ hc => ⟨hc, hgone _⟩
    exact FileStores.mem_purgeBytes.2 ⟨hs, fun heq => hc _ hcreated heq.symm⟩
  have hrest : ∀ r ∈ rest, (r.id, r.storageKey) ∈ s.stores.created :=
    fun r hr => hok.rest r (List.mem_cons_of_mem _ hr)
  have hpurged : ∀ r ∈ purgedIds, (r.id, r.storageKey) ∈ s.stores.created ∧
      r.storageKey ∉ (s.stores.purgeBytes row.storageKey).stored :=
    fun r hr => ⟨(hok.purgedIds r hr).1, hgone _ (hok.purgedIds r hr).2⟩
  cases ending with
  | done =>
    refine h.setPurge (h.stores.purgeBytes hcreated (hdeleted rfl)) h.created hothers ⟨hrest, fun r hr => ?_⟩
    rcases List.mem_append.1 hr with hr | hr
    · exact hpurged r hr
    · rw [List.mem_singleton.1 hr]
      exact ⟨hcreated, fun hw => (FileStores.mem_purgeBytes.1 hw).2 rfl⟩
  | failed originalDeleted =>
    cases originalDeleted with
    | true => exact h.setPurge (h.stores.purgeBytes hcreated (hdeleted rfl)) h.created hothers ⟨hrest, hpurged⟩
    | false =>
      exact h.setPurge h.stores h.created (fun k' phase _ hk' => h.phases k' phase hk') ⟨hrest, hok.purgedIds⟩

theorem Inv.forgetRow (h : s.Inv) {cursor : Option FileRefRow} {row : FileRefRow} {purgedIds : List FileRefRow}
    (hphase : s.phases k = some (.purge ⟨expiredBefore, cursor, [], row :: purgedIds⟩)) (forgotten : Bool) :
    (s.go k (if forgotten then s.stores.forgetRow row.id else s.stores)
      (some (.purge ⟨expiredBefore, cursor, [], purgedIds⟩))).Inv := by
  have hok : s.stores.PurgeOk ⟨expiredBefore, cursor, [], row :: purgedIds⟩ := h.phases k _ hphase
  obtain ⟨hcreated, hgone⟩ := hok.purgedIds row List.mem_cons_self
  have hrun : s.stores.PurgeOk ⟨expiredBefore, cursor, [], purgedIds⟩ :=
    ⟨hok.rest, fun r hr => hok.purgedIds r (List.mem_cons_of_mem _ hr)⟩
  cases forgotten with
  | false => exact h.setPurge h.stores h.created (fun k' phase _ hk' => h.phases k' phase hk') hrun
  | true =>
    refine h.setPurge (h.stores.forgetRow hcreated hgone) h.created (fun k' phase _ hk' => ?_)
      ⟨hrun.rest, hrun.purgedIds⟩
    refine (h.phases k' phase hk').frame (fun _ _ hc => ⟨hc, fun hs => hs⟩) (fun _ _ hr hw => hr ?_)
      (fun _ _ hs => hs) (fun _ _ he => he) (fun _ _ _ hs => hs) fun _ hc => ⟨hc, fun hs => hs⟩
    obtain ⟨r, hmem, hkey⟩ := hw
    exact ⟨r, List.mem_of_mem_filter hmem, hkey⟩

/-! ## Every run in time -/

/-- The rows are flagged, and nothing else. -/
theorem Inv.setRows (h : s.Inv) {rows : List FileRefRow} (hd : FileStores.Ok { s.stores with rows })
    (hrow : ∀ key, FileStores.HasRow { s.stores with rows } key → s.stores.HasRow key) :
    Inv { s with stores := { s.stores with rows } } := by
  refine ⟨hd, fun k phase hk => ?_, h.once, h.locks, h.issued, h.created⟩
  exact (h.phases k phase hk).frame (fun _ _ hc => ⟨hc, fun hs => hs⟩) (fun key _ hr hw => hr (hrow key hw))
    (fun _ _ hs => hs) (fun _ _ he => he) (fun _ _ _ hs => hs) fun _ hc => ⟨hc, fun hs => hs⟩

theorem hasRow_of_map {flag : FileRefRow → FileRefRow} (hflag : ∀ row, (flag row).storageKey = row.storageKey)
    (h : FileStores.HasRow { d with rows := d.rows.map flag } key) : d.HasRow key := by
  obtain ⟨r, hr, rfl⟩ := h
  obtain ⟨old, hold, rfl⟩ := List.mem_map.1 hr
  exact ⟨old, hold, (hflag old).symm⟩

theorem Inv.startUpload (h : s.Inv) (hfree : s.phases k = none) (hkey : key ∉ s.issued) :
    Inv { s.go k s.stores (some (.record mode key)) with issued := key :: s.issued } := by
  have hphases : ∀ k', (s.go k s.stores (some (.record mode key))).phases k' =
      if k' = k then some (.record mode key) else s.phases k' := fun k' => Function.update_apply ..
  have hupload : ∀ k' key', ((s.go k s.stores (some (.record mode key))).phases k').bind FilePhase.uploadKey =
      some key' → k' = k ∧ key' = key ∨ (s.phases k').bind FilePhase.uploadKey = some key' := by
    intro k' key' hk'
    rw [hphases] at hk'
    split at hk'
    · next heq => exact .inl ⟨heq, (Option.some.inj hk').symm⟩
    · exact .inr hk'
  refine ⟨h.stores, fun k' phase hk' => ?_, fun k' k'' key' hk' hk'' => ?_, fun k' k'' key' hk' hk'' => ?_,
    fun k' key' hk' => ?_, fun c hc => List.mem_cons_of_mem _ (h.created c hc)⟩
  · rw [hphases] at hk'
    split at hk'
    · cases hk'
      exact fun c hc heq => hkey (heq ▸ h.created c hc)
    · exact h.phases k' phase hk'
  · rcases hupload k' key' hk' with ⟨rfl, rfl⟩ | hbefore
    · rcases hupload k'' key' hk'' with ⟨rfl, _⟩ | hbefore
      · rfl
      · exact absurd (h.issued k'' key' hbefore) hkey
    · rcases hupload k'' key' hk'' with ⟨rfl, rfl⟩ | hbefore'
      · exact absurd (h.issued k' key' hbefore) hkey
      · exact h.once k' k'' key' hbefore hbefore'
  · have hholds : ∀ k', ((s.go k s.stores (some (.record mode key))).phases k').bind FilePhase.holds = some key' →
        (s.phases k').bind FilePhase.holds = some key' := by
      intro k' hk'
      rw [hphases] at hk'
      split at hk'
      · cases hk'
      · exact hk'
    exact h.locks k' k'' key' (hholds k' hk') (hholds k'' hk'')
  · rcases hupload k' key' hk' with ⟨_, rfl⟩ | hk'
    · exact List.mem_cons_self
    · exact List.mem_cons_of_mem _ (h.issued k' key' hk')

/-- One step in time. -/
theorem Inv.step {a : FileAct n} (h : s.Inv) (hok : s.InTime a) (hs : s.step a = some s') : s'.Inv := by
  cases a with
  | tick ms =>
    cases hs
    exact ⟨⟨h.stores.createdKeys, h.stores.createdIds, h.stores.rows, h.stores.entries, h.stores.bytes,
      h.stores.named⟩, fun k phase hk => (h.phases k phase hk).frame (fun _ _ hc => ⟨hc, fun hs => hs⟩)
        (fun _ _ hr => hr) (fun _ _ hs => hs) (fun _ _ he => he) (fun _ _ _ hs => hs) fun _ hc => ⟨hc, fun hs => hs⟩,
      h.once, h.locks, h.issued, h.created⟩
  | startUpload k mode key =>
    rw [FileWorld.step] at hs
    split at hs
    · cases hs
    · next hfree =>
      cases hs
      obtain ⟨hidle, hkey⟩ := not_or.1 hfree
      exact h.startUpload (Option.not_isSome_iff_eq_none.1 hidle) hkey
  | record k acknowledged =>
    rw [FileWorld.step] at hs
    split at hs
    · next mode key hphase => cases hs; exact h.record hphase acknowledged
    · cases hs
  | write k stored acknowledged =>
    rw [FileWorld.step] at hs
    split at hs
    · next mode key hphase =>
      split at hs
      · cases hs
      · next hboth =>
        cases hs
        cases stored with
        | true =>
          obtain ⟨hentry, hlate⟩ := hok mode key rfl hphase
          exact h.write hphase hentry hlate acknowledged
        | false =>
          cases acknowledged with
          | true => exact absurd ⟨rfl, rfl⟩ hboth
          | false => exact h.setIdle
    · cases hs
  | transact k id ending =>
    rw [FileWorld.step] at hs
    split at hs
    · next mode key hphase =>
      split at hs
      · next hcommits =>
        split at hs
        · cases hs
        · next hfree =>
          cases hs
          obtain ⟨hlock, hfree⟩ := not_or.1 hfree
          obtain ⟨hentry, hid⟩ := not_or.1 hfree
          exact h.createRow hphase hcommits hlock (not_not.1 hentry) hid (hok mode key hcommits hphase)
      · next hcommits =>
        cases hs
        have hcreate : s.stores.Uncreated key ∧ (key ∈ s.stores.stored ∨ key ∈ s.stores.swept) :=
          h.phases k _ hphase
        exact h.transact hphase h.stores h.created (fun k' phase _ hk' => h.phases k' phase hk')
          fun _ => h.stores.uncreated_of_row hcreate.1
    · cases hs
  | release k =>
    rw [FileWorld.step] at hs
    split at hs
    · next key hphase =>
      cases hs
      split
      · exact h.setIdle
      · next hrow =>
        refine h.setPhase (fun phase heq => ?_) (fun key' heq => ?_) fun _ heq => nomatch heq
        · cases heq
          exact fun _ => hrow
        · rw [hphase]; exact heq
    · cases hs
  | deleteBytes k deleted =>
    rw [FileWorld.step] at hs
    split at hs
    · next mode key hphase =>
      split at hs
      · next hdeleted =>
        cases hs
        refine h.deleteBytes hphase ?_
        by_cases hmode : mode = .own
        · exact hok key hdeleted (hmode ▸ hphase)
        · exact h.phases k _ hphase hmode
      · cases hs; exact h.setIdle
    · cases hs
  | forget k =>
    rw [FileWorld.step] at hs
    split at hs
    · next key hphase =>
      split at hs
      · cases hs
      · next hfree =>
        cases hs
        exact h.forgetEntry (h.phases k _ hphase) (fun k' phase _ hk' key' => ne_of_unlocked hfree hk')
          fun _ heq => nomatch heq
    · cases hs
  | startSweep k graceHours =>
    rw [FileWorld.step] at hs
    split at hs
    · cases hs
    · cases hs
      exact h.setPhase (fun phase heq => by cases heq; trivial) (fun _ heq => nomatch heq) fun _ heq => nomatch heq
  | sweepPage k pageSize =>
    rw [FileWorld.step] at hs
    split at hs
    · next cutoff cursor hphase =>
      cases hs
      cases (s.stores.sweepPage cutoff cursor pageSize).getLast? with
      | none => exact h.setIdle
      | some last =>
        exact h.setPhase (fun phase heq => by cases heq; trivial) (fun _ heq => nomatch heq) fun _ heq => nomatch heq
    · cases hs
  | takeEntry k =>
    rw [FileWorld.step] at hs
    split at hs
    · next cutoff cursor key rest hphase =>
      split at hs
      · cases hs
      · next hfree =>
        split at hs
        · cases hs
          exact h.setPhase (fun phase heq => by cases heq; trivial) (fun _ heq => nomatch heq) fun _ heq => nomatch heq
        · next hentry =>
          obtain ⟨hrow, hdelete⟩ := takeEntry_ok h.stores ⟨cutoff, cursor, rest⟩ (not_not.1 hentry)
          split at hs
          · next hclaimed => exact absurd hclaimed hrow
          · cases hs
            refine h.setPhase (fun phase heq => ?_) (fun _ heq => nomatch heq) fun key' heq => .inr ?_
            · cases heq
              exact hdelete
            · cases heq
              exact hfree
    · cases hs
  | sweepBytes k ending =>
    rw [FileWorld.step] at hs
    split at hs
    · next run key hphase => cases hs; exact h.sweepBytes hphase ending
    · cases hs
  | endSweep k committed =>
    rw [FileWorld.step] at hs
    split at hs
    · next run key hphase => cases hs; exact h.endSweep hphase committed
    · cases hs
  | startPurge k graceDays =>
    rw [FileWorld.step] at hs
    split at hs
    · cases hs
    · cases hs
      exact h.setPurge h.stores h.created (fun k' phase _ hk' => h.phases k' phase hk')
        ⟨fun _ hr => (nomatch hr), fun _ hr => (nomatch hr)⟩
  | purgePage k pageSize =>
    rw [FileWorld.step] at hs
    split at hs
    · next expiredBefore cursor hphase =>
      cases hs
      cases (s.stores.selectNextPage expiredBefore cursor pageSize).getLast? with
      | none => exact h.setIdle
      | some last =>
        exact h.setPurge h.stores h.created (fun k' phase _ hk' => h.phases k' phase hk')
          ⟨fun row hr => h.stores.rows row (mem_selectNextPage hr), fun _ hr => (nomatch hr)⟩
    · cases hs
  | purgeBytes k ending =>
    rw [FileWorld.step] at hs
    split at hs
    · next expiredBefore cursor row rest purgedIds hphase =>
      cases hs
      exact h.purgeBytes hphase fun hdeletes => hok expiredBefore cursor row rest purgedIds hdeletes hphase
    · cases hs
  | forgetRow k forgotten =>
    rw [FileWorld.step] at hs
    split at hs
    · next expiredBefore cursor row purgedIds hphase => cases hs; exact h.forgetRow hphase forgotten
    · cases hs
  | crash k => cases hs; exact h.setIdle
  | softDelete id =>
    cases hs
    exact h.setRows h.stores.softDelete fun key => hasRow_of_map fun row => by split <;> rfl
  | restore id =>
    cases hs
    exact h.setRows (h.stores.restore hok) fun key => hasRow_of_map fun row => by split <;> rfl

theorem inv_initial {now : ℤ} : (initial (n := n) now).Inv := by
  refine ⟨⟨List.nodup_nil, List.nodup_nil, fun _ hrow => (nomatch hrow), ?_, fun _ hrow => (nomatch hrow),
    fun _ hkey => (nomatch hkey)⟩, fun _ _ hk => (nomatch hk), fun _ _ _ hk => (nomatch hk),
    fun _ _ _ hk => (nomatch hk), fun _ _ hk => (nomatch hk), fun _ hc => (nomatch hc)⟩
  rintro key ⟨entry, hentry, _⟩
  cases hentry

/-- Where no step is too late, every live row has its bytes and every stored object is named. -/
theorem uploadsKept_of_run {now : ℤ} (hr : Run FileWorld.step InTime (initial (n := n) now) s) : s.stores.Kept := by
  have hinv : s.Inv := hr.invariant inv_initial fun _ _ _ h hok hs => h.step hok hs
  exact hinv.stores.kept

/-! ## Runs -/

/-- The condition, evaluated. -/
def inTimeB (s : FileWorld n) : FileAct n → Bool
  | .write k stored _ => match s.phases k with
    | some (.write _ key) => !stored || decide (s.stores.HasEntry key) &&
        (List.finRange n).all fun k' => match s.phases k' with
          | some (.sweepCommit _ key') => key' ≠ key
          | _ => true
    | _ => true
  | .transact k _ ending => match s.phases k with
    | some (.create _ key) => !ending.commits || key ∉ s.stores.swept
    | _ => true
  | .deleteBytes k deleted => match s.phases k with
    | some (.deleteBytes .own key) => !deleted || !decide (s.stores.HasRow key)
    | _ => true
  | .purgeBytes k ending => match s.phases k with
    | some (.purge ⟨_, _, row :: _, _⟩) => !ending.deletes || s.stores.rows.all fun r => r.id ≠ row.id || r.isDeleted
    | _ => true
  | .restore id => s.stores.rows.all fun row => row.id ≠ id || row.storageKey ∉ s.stores.purged
  | _ => true

theorem inTime_of_check {a : FileAct n} (h : s.inTimeB a = true) : s.InTime a := by
  cases a with
  | write k stored acknowledged =>
    rintro mode key rfl hphase
    rw [inTimeB, hphase] at h
    obtain ⟨hentry, hlate⟩ := Bool.and_eq_true_iff.1 h
    refine ⟨of_decide_eq_true hentry, fun k' run hk' => ?_⟩
    have hne := List.all_eq_true.1 hlate k' (List.mem_finRange k')
    rw [hk'] at hne
    exact of_decide_eq_true hne rfl
  | transact k id ending =>
    intro mode key hcommits hphase
    rw [inTimeB, hphase, hcommits] at h
    exact of_decide_eq_true h
  | deleteBytes k deleted =>
    rintro key rfl hphase
    rw [inTimeB, hphase] at h
    simpa using h
  | purgeBytes k ending =>
    intro expiredBefore cursor row rest purgedIds hdeletes hphase r hr hid
    rw [inTimeB, hphase, hdeletes] at h
    have hrow := List.all_eq_true.1 h r hr
    simpa [hid] using hrow
  | restore id =>
    intro row hrow hid
    have hpurged := List.all_eq_true.1 h row hrow
    simpa [hid] using hpurged
  | _ => trivial

end FileWorld

theorem FileStores.kept_iff {d : FileStores} : d.Kept ↔
    (∀ row ∈ d.rows, row.isDeleted = false → row.storageKey ∈ d.stored) ∧
      ∀ key ∈ d.stored, d.HasRow key ∨ d.HasEntry key := ⟨fun h => ⟨h.bytes, h.named⟩, fun h => ⟨h.1, h.2⟩⟩

instance (d : FileStores) : Decidable d.Kept := decidable_of_iff _ FileStores.kept_iff.symm

namespace FileWorld

/-- An upload up to its bytes. -/
def uploadActs (k : Fin 2) (key : String) : List (FileAct 2) :=
  [.startUpload k .own key, .record k true, .write k true true]

/-- A sweep up to the delete of its first entry. -/
def sweepActs (k : Fin 2) : List (FileAct 2) :=
  [.tick 3600001, .startSweep k 1, .sweepPage k 500, .takeEntry k, .sweepBytes k .done]

/-- A file is deleted and restored, an upload that crashes is swept, and a file is purged with its row. -/
theorem uploadsKept_of_run_sweep : ∃ s : FileWorld 2,
    (s.stores.stored = ["a"] ∧ s.stores.rows.map (·.id) = ["f"] ∧ s.stores.ledger = []) ∧ s.stores.Kept := by
  obtain ⟨s, hr, hs⟩ := exists_run_of_execOk FileWorld.step inTimeB (initial 0)
    (uploadActs 0 "a" ++ [.transact 0 "f" .committed, .softDelete "f", .restore "f"] ++ uploadActs 0 "b" ++
      [.crash 0] ++ sweepActs 1 ++ [.endSweep 1 true, .sweepPage 1 500] ++ uploadActs 0 "c" ++
      [.transact 0 "g" .committed, .softDelete "g", .tick 1, .startPurge 1 0, .purgePage 1 500, .purgeBytes 1 .done,
        .forgetRow 1 true])
    (fun s => decide (s.stores.stored = ["a"] ∧ s.stores.rows.map (·.id) = ["f"] ∧ s.stores.ledger = []))
    (fun s a h => inTime_of_check h) (by decide +kernel) (by decide +kernel)
  exact ⟨s, of_decide_eq_true hs, uploadsKept_of_run hr⟩

/-- A create whose commit succeeds unheard deletes the bytes of its live row. -/
theorem not_uploadsKept : ¬∀ s : FileWorld 2, Run FileWorld.step (fun _ _ => True) (initial 0) s → s.stores.Kept := by
  intro h
  obtain ⟨s, hr, hs⟩ := exists_run_of_exec FileWorld.step (initial 0)
    (uploadActs 0 "a" ++ [.transact 0 "f" .acknowledgmentLost, .deleteBytes 0 true])
    (fun s => ¬s.stores.Kept) (by decide +kernel)
  exact of_decide_eq_true hs (h s hr)

end FileWorld

end Kumiko
