import Kumiko.Db.ExecutorVerbs

/-!
# Cascade delete

The delete of an entity row and the hook that follows it in its transaction (`pipeline/cascade-handler.ts`): the
rows that reference the deleted one block the delete, are deleted or are detached. What becomes of a row does
not depend on the others (`Link.fate`). The relations of a row that the hook deletes are not asked, nor does a
`TenantDb` read another tenant's rows. `Deleted.deletesWhole_iff` says when nothing references a deleted row.
-/

namespace Kumiko

/-- Reference: `OnDeleteStrategies`. -/
inductive OnDeleteStrategy
  | nothing
  | restrict
  | cascade
  | setNull
  deriving DecidableEq

/-- Reference: `RelationDefinition`. -/
inductive RelationDefinition
  | belongsTo (target foreignKey : String)
  | hasMany (target foreignKey : String) (onDelete : Option OnDeleteStrategy)
  | manyToMany (target throughTable sourceKey targetKey : String) (onDelete : Option OnDeleteStrategy)

/-- Reference: `onDeleteStrategyOf`. -/
def onDeleteStrategyOf (onDelete : Option OnDeleteStrategy) : OnDeleteStrategy := onDelete.getD .nothing

/-- A row of an entity or through table: its columns hold the ids of other rows. There is no tenant in a table without
the column. -/
structure LinkedRow where
  id : String
  tenantId : Option String
  isDeleted : Bool
  columns : String → Option String

/-- What the hook reads of an entity definition. Reference: `EntityDefinition`. -/
structure LinkedEntity where
  softDelete : Bool
  lockedWhen : Option (LinkedRow → Bool)

/-- The registry, and what the executors refuse for a reason of their own (an archived stream, a delete that could not
be undone). -/
structure CascadeRegistry where
  getRelations : String → List RelationDefinition
  getEntity : String → Option LinkedEntity
  refusesDelete : String → LinkedRow → Bool
  refusesUpdate : String → LinkedRow → Bool

/-- The tables by the names of their entities, with their rows. -/
abbrev LinkedTables := String → Option (List LinkedRow)

/-- Why a delete fails. -/
inductive DeleteError
  | notFound (entityName id : String)
  | refused (entityName id : String)
  | restricted (blockingEntity entityName parentId : String)
  | recordLocked (entityName parentId : String)
  | internal (message : String)

/-- The message of an error that the hook throws itself. Reference: `deleteRestrictedError`, `RecordLockedError`. -/
def DeleteError.message : DeleteError → Option String
  | .restricted blockingEntity entityName parentId =>
    some (blockingEntity ++ " has records referencing " ++ entityName ++ "#" ++ parentId)
  | .recordLocked entityName parentId => some (entityName ++ " " ++ parentId ++ " is locked and cannot be changed")
  | .internal message => some message
  | .notFound .. | .refused .. => none

namespace LinkedRow

variable (row : LinkedRow) (softDelete : Bool)

/-- The row is not soft-deleted. -/
def live : Bool := !(softDelete && row.isDeleted)

/-- What a delete leaves of the row. -/
def erased : Option LinkedRow := if softDelete then some { row with isDeleted := true } else none

/-- The row without its reference. -/
def detach (key : String) : LinkedRow := { row with columns := Function.update row.columns key none }

/-- The row references another one. -/
def References (key id : String) : Prop := row.columns key = some id

instance (key id : String) : Decidable (row.References key id) := inferInstanceAs (Decidable (_ = _))

end LinkedRow

namespace CascadeRegistry

variable (registry : CascadeRegistry)

/-- The entity's deletes are soft. -/
def softDelete (name : String) : Bool := (registry.getEntity name).any (·.softDelete)

end CascadeRegistry

/-- The delete that the hook follows, and the `TenantDb` of both. Reference: `CascadeRun`. -/
structure CascadeRun where
  registry : CascadeRegistry
  db : TenantHandle
  entityName : String
  parentId : String
  lockGuardBypassed : Bool

namespace CascadeRun

variable (run : CascadeRun)

/-- The row is of the own tenant or of the system tenant, or the mode is `system`. Reference: `readWhere`
(`db/tenant-db.ts`). -/
def reads (row : LinkedRow) : Bool :=
  run.db.system || row.tenantId.all fun tenantId => tenantId = run.db.tenantId || tenantId = systemTenantId

/-- A query of the hook for the rows that reference the parent finds the row. -/
def Finds (key : String) (row : LinkedRow) : Prop := row.References key run.parentId ∧ run.reads row

instance (key : String) (row : LinkedRow) : Decidable (run.Finds key row) := inferInstanceAs (Decidable (_ ∧ _))

/-! ## The executors -/

/-- A delete by the executor of a table, without hooks. Reference: `delete` (`db/event-store-executor-write.ts`). -/
def executorDelete (name : String) (rows : List LinkedRow) (id : String) : Except DeleteError (List LinkedRow) :=
  match rows.find? fun row => row.id = id && run.reads row && row.live (run.registry.softDelete name) with
  | none => .error (.notFound name id)
  | some row =>
    if run.registry.refusesDelete name row then .error (.refused name id)
    else .ok (rows.filterMap fun row => if row.id = id then row.erased (run.registry.softDelete name) else some row)

/-- An update that takes a reference away, of a soft-deleted row too. Reference: `update`. -/
def executorDetach (name key : String) (rows : List LinkedRow) (id : String) : Except DeleteError (List LinkedRow) :=
  match rows.find? fun row => row.id = id && run.reads row with
  | none => .error (.notFound name id)
  | some row =>
    if run.registry.refusesUpdate name row then .error (.refused name id)
    else .ok (rows.map fun row => if row.id = id then row.detach key else row)

/-! ## The hook -/

/-- Reference: `childIds`. -/
def childIds (name key : String) (rows : List LinkedRow) : List String :=
  (rows.filter fun row => run.Finds key row && row.live (run.registry.softDelete name)).map (·.id)

/-- Reference: `rejectIfReferenced`. -/
def rejectIfReferenced (name key : String) (rows : List LinkedRow) : Except DeleteError Unit :=
  if ∃ row ∈ rows, run.Finds key row then
    .error (.restricted name run.entityName run.parentId)
  else .ok ()

/-- Reference: `rejectLockedChildren`. -/
def rejectLockedChildren (childEntity : LinkedEntity) (key : String) (rows : List LinkedRow) :
    Except DeleteError Unit :=
  match childEntity.lockedWhen with
  | none => .ok ()
  | some isRecordLocked =>
    if run.lockGuardBypassed then .ok ()
    else if ∃ row ∈ rows, run.Finds key row ∧ row.live childEntity.softDelete ∧ isRecordLocked row then
      .error (.recordLocked run.entityName run.parentId)
    else .ok ()

/-- Reference: `deleteHasManyChildren`. -/
def deleteHasManyChildren (name key : String) (rows : List LinkedRow) : Except DeleteError (List LinkedRow) :=
  match run.registry.getEntity name with
  | none => .error (.internal
      ("cascadeDelete: child \"" ++ name ++ "\" is not an entity; changing its rows needs an executor"))
  | some childEntity => do
    run.rejectLockedChildren childEntity key rows
    (run.childIds name key rows).foldlM (run.executorDelete name) rows

/-- Reference: `detachHasManyChildren`. -/
def detachHasManyChildren (name key : String) (rows : List LinkedRow) : Except DeleteError (List LinkedRow) :=
  match run.registry.getEntity name with
  | none => .error (.internal
      ("cascadeDelete: child \"" ++ name ++ "\" is not an entity; changing its rows needs an executor"))
  | some childEntity => do
    run.rejectLockedChildren childEntity key rows
    ((rows.filter fun row => run.Finds key row).map (·.id)).foldlM (run.executorDetach name key) rows

/-- Reference: `deleteThroughRows`. -/
def deleteThroughRows (name key : String) (rows : List LinkedRow) : Except DeleteError (List LinkedRow) :=
  match run.registry.getEntity name with
  | none => .error (.internal
      ("cascadeDelete: through table \"" ++ name ++ "\" is not an entity; deleting its rows needs an executor"))
  | some _ => (run.childIds name key rows).foldlM (run.executorDelete name) rows

/-- Reference: `HAS_MANY_ON_DELETE`. -/
def hasManyOnDelete (strategy : OnDeleteStrategy) (name key : String) (rows : List LinkedRow) :
    Except DeleteError (List LinkedRow) :=
  match strategy with
  | .nothing => .ok rows
  | .restrict => do
    run.rejectIfReferenced name key rows
    return rows
  | .cascade => run.deleteHasManyChildren name key rows
  | .setNull => run.detachHasManyChildren name key rows

/-- Reference: `THROUGH_ON_DELETE`. -/
def throughOnDelete (strategy : OnDeleteStrategy) (name key : String) (rows : List LinkedRow) :
    Except DeleteError (List LinkedRow) :=
  match strategy with
  | .nothing | .setNull => .ok rows
  | .restrict => do
    run.rejectIfReferenced name key rows
    return rows
  | .cascade => run.deleteThroughRows name key rows

/-- The hook for one relation; a table that is not mapped is left alone. Reference: `applyOnDelete`. -/
def applyOnDelete (tables : LinkedTables) (relation : RelationDefinition) : Except DeleteError LinkedTables :=
  match relation with
  | .belongsTo .. => .ok tables
  | .hasMany target foreignKey onDelete =>
    if foreignKey = "" then .ok tables
    else match tables target with
      | none => .ok tables
      | some rows => do
        let rows ← run.hasManyOnDelete (onDeleteStrategyOf onDelete) target foreignKey rows
        return Function.update tables target (some rows)
  | .manyToMany _ throughTable sourceKey _ onDelete =>
    match tables throughTable with
    | none => .ok tables
    | some rows => do
      let rows ← run.throughOnDelete (onDeleteStrategyOf onDelete) throughTable sourceKey rows
      return Function.update tables throughTable (some rows)

/-- The delete of the parent row and the hook after it, in one transaction. Reference: `createCascadeDeleteHook`,
`runLifecycle` (`pipeline/dispatch-write.ts`). -/
def deleteEntity (tables : LinkedTables) : Except DeleteError LinkedTables :=
  match tables run.entityName with
  | none => .error (.internal ("no table for " ++ run.entityName))
  | some rows => do
    let rows ← run.executorDelete run.entityName rows run.parentId
    (run.registry.getRelations run.entityName).foldlM run.applyOnDelete
      (Function.update tables run.entityName (some rows))

/-- What the transaction leaves: an error rolls it back. -/
def afterDelete (tables : LinkedTables) : LinkedTables :=
  match run.deleteEntity tables with
  | .ok tables' => tables'
  | .error _ => tables

end CascadeRun

/-! ## Links -/

/-- A relation as the hook takes it: the rows of a table that reference the parent by a key, and what becomes of
them. -/
structure Link where
  table : String
  key : String
  strategy : OnDeleteStrategy

/-- The link of a relation. The rows of a through table have no reference to take away. -/
def RelationDefinition.link : RelationDefinition → Option Link
  | .belongsTo .. => none
  | .hasMany target foreignKey onDelete =>
    if foreignKey = "" then none else some ⟨target, foreignKey, onDeleteStrategyOf onDelete⟩
  | .manyToMany _ throughTable sourceKey _ onDelete =>
    some ⟨throughTable, sourceKey,
      if onDeleteStrategyOf onDelete = .setNull then .nothing else onDeleteStrategyOf onDelete⟩

namespace CascadeRegistry

/-- The links of an entity. -/
def links (registry : CascadeRegistry) (name : String) : List Link := (registry.getRelations name).filterMap (·.link)

/-- A row with the id is there and not soft-deleted. -/
def LiveIn (registry : CascadeRegistry) (tables : LinkedTables) (name id : String) : Prop :=
  ∃ rows, tables name = some rows ∧ ∃ row ∈ rows, row.id = id ∧ row.live (registry.softDelete name)

/-- No live row references the row through a link of the strategy. -/
def Unreferenced (registry : CascadeRegistry) (tables : LinkedTables) (strategy : OnDeleteStrategy) (name id : String) :
    Prop :=
  ∀ l ∈ registry.links name, l.strategy = strategy → ∀ rows, tables l.table = some rows →
    ∀ row ∈ rows, row.live (registry.softDelete l.table) → ¬ row.References l.key id

/-- A delete leaves no live row with a reference to a deleted row that a cascade should have followed or a restrict
should have kept. -/
structure DeletesWhole (registry : CascadeRegistry) (before after : LinkedTables) : Prop where
  cascade : ∀ name id, registry.LiveIn before name id → ¬ registry.LiveIn after name id →
    registry.Unreferenced after .cascade name id
  restrict : ∀ name id, registry.LiveIn before name id → ¬ registry.LiveIn after name id →
    registry.Unreferenced after .restrict name id

end CascadeRegistry

namespace CascadeRun

variable (run : CascadeRun)

/-- The hook detaches the row: a set-null link has the key by which the row references the parent. -/
def Detached (links : List Link) (name : String) (row : LinkedRow) (key : String) : Prop :=
  run.Finds key row ∧ ∃ l ∈ links, l.table = name ∧ l.key = key ∧ l.strategy = .setNull

/-- The hook deletes the row: a cascade link finds it, before a set-null link has taken its reference away. -/
def Cascaded (links : List Link) (name : String) (row : LinkedRow) : Prop :=
  ∃ before l after, links = before ++ l :: after ∧ l.table = name ∧ l.strategy = .cascade ∧
    run.Finds l.key row ∧ ¬ ∃ l' ∈ before, l'.table = name ∧ l'.key = l.key ∧ l'.strategy = .setNull

/-- The hook reads every other live row that references the parent through a cascade or restrict link. -/
def Seen (tables : LinkedTables) : Prop :=
  ∀ l ∈ run.registry.links run.entityName, l.strategy = .cascade ∨ l.strategy = .restrict →
    ∀ rows, tables l.table = some rows → ∀ row ∈ rows, row.live (run.registry.softDelete l.table) →
    (l.table, row.id) ≠ (run.entityName, run.parentId) → row.References l.key run.parentId → run.reads row

/-- A row that the hook deletes is referenced, through the cascade and restrict links of its own entity, by no live row
but the parent and those that the hook deletes or detaches too. -/
def Shallow (tables : LinkedTables) : Prop :=
  ∀ name rows, tables name = some rows → ∀ child ∈ rows, child.live (run.registry.softDelete name) →
    run.Cascaded (run.registry.links run.entityName) name child → (name, child.id) ≠ (run.entityName, run.parentId) →
    ∀ l ∈ run.registry.links name, l.strategy = .cascade ∨ l.strategy = .restrict →
    ∀ rows', tables l.table = some rows' → ∀ row ∈ rows', row.live (run.registry.softDelete l.table) →
    row.References l.key child.id →
    (l.table, row.id) = (run.entityName, run.parentId) ∨
      run.Cascaded (run.registry.links run.entityName) l.table row ∨
      run.Detached (run.registry.links run.entityName) l.table row l.key

end CascadeRun

/-! ## What the executors do -/

/-- The rows without those whose ids are taken. -/
def eraseIds (softDelete : Bool) (taken : String → Bool) (rows : List LinkedRow) : List LinkedRow :=
  rows.filterMap fun row => if taken row.id then row.erased softDelete else some row

/-- The rows with those whose ids are taken detached. -/
def detachIds (key : String) (taken : String → Bool) (rows : List LinkedRow) : List LinkedRow :=
  rows.map fun row => if taken row.id then row.detach key else row

section
variable {registry : CascadeRegistry} {run : CascadeRun} {tables tables' : LinkedTables} {rows rows' : List LinkedRow}
  {row row' : LinkedRow} {name key id : String} {ids : List String} {softDelete : Bool} {l : Link}
  {links : List Link} {relation : RelationDefinition} {p q : String → Bool}

theorem erased_id (h : row.erased softDelete = some row') : row'.id = row.id ∧ row'.tenantId = row.tenantId ∧
    row'.columns = row.columns ∧ row'.live softDelete = false := by
  cases softDelete with
  | false => cases h
  | true =>
    cases h
    exact ⟨rfl, rfl, rfl, rfl⟩

@[simp] theorem detach_columns : (row.detach key).columns key = none := Function.update_self ..

theorem detach_columns_of_ne {key' : String} (h : key' ≠ key) : (row.detach key).columns key' = row.columns key' :=
  Function.update_of_ne h ..

theorem reads_congr (h : row'.tenantId = row.tenantId) : run.reads row' = run.reads row := by
  rw [CascadeRun.reads, h, CascadeRun.reads]

theorem finds_detach_iff {key' : String} (h : key' ≠ key) : run.Finds key' (row.detach key) ↔ run.Finds key' row :=
  and_congr (by rw [LinkedRow.References, detach_columns_of_ne h, LinkedRow.References]) Iff.rfl

theorem not_finds_detach : ¬ run.Finds key (row.detach key) := fun h => by
  have href := h.1
  rw [LinkedRow.References, detach_columns] at href
  cases href

theorem detach_detach : (row.detach key).detach key = row.detach key := by
  simp [LinkedRow.detach]

theorem eraseIds_eraseIds : eraseIds softDelete q (eraseIds softDelete p rows) =
    eraseIds softDelete (fun id => p id || q id) rows := by
  unfold eraseIds
  rw [List.filterMap_filterMap]
  refine List.filterMap_congr fun row _ => ?_
  cases hp : p row.id with
  | true => cases softDelete <;> simp [LinkedRow.erased, hp]
  | false => simp [hp]

theorem detachIds_detachIds : detachIds key q (detachIds key p rows) = detachIds key (fun id => p id || q id) rows := by
  unfold detachIds
  rw [List.map_map]
  refine List.map_congr_left fun row _ => ?_
  cases hp : p row.id with
  | true => simp [hp, detach_detach]
  | false => simp [hp]

theorem executorDelete_ok (h : run.executorDelete name rows id = .ok rows') :
    rows' = eraseIds (run.registry.softDelete name) (· = id) rows ∧
      ∃ row ∈ rows, row.id = id ∧ row.live (run.registry.softDelete name) := by
  unfold CascadeRun.executorDelete at h
  split at h
  · cases h
  · next row hfound =>
    split at h
    · cases h
    · cases h
      have hp := List.find?_some hfound
      simp only [Bool.and_eq_true, decide_eq_true_eq] at hp
      exact ⟨by simp [eraseIds], row, List.mem_of_find?_eq_some hfound, hp.1.1, hp.2⟩

theorem executorDetach_ok (h : run.executorDetach name key rows id = .ok rows') :
    rows' = detachIds key (· = id) rows := by
  unfold CascadeRun.executorDetach at h
  split at h
  · cases h
  · split at h
    · cases h
    · cases h
      simp [detachIds]

/-- The deletes of a list of rows. -/
theorem foldlM_executorDelete (h : ids.foldlM (run.executorDelete name) rows = .ok rows') :
    rows' = eraseIds (run.registry.softDelete name) (· ∈ ids) rows := by
  induction ids generalizing rows with
  | nil =>
    cases h
    simp [eraseIds]
  | cons id ids ih =>
    rw [List.foldlM_cons] at h
    cases hdel : run.executorDelete name rows id with
    | error e =>
      rw [hdel] at h
      cases h
    | ok rows₁ =>
      rw [hdel] at h
      rw [ih h, (executorDelete_ok hdel).1, eraseIds_eraseIds]
      simp [List.mem_cons]

theorem foldlM_executorDetach (h : ids.foldlM (run.executorDetach name key) rows = .ok rows') :
    rows' = detachIds key (· ∈ ids) rows := by
  induction ids generalizing rows with
  | nil =>
    cases h
    simp [detachIds]
  | cons id ids ih =>
    rw [List.foldlM_cons] at h
    cases hdet : run.executorDetach name key rows id with
    | error e =>
      rw [hdet] at h
      cases h
    | ok rows₁ =>
      rw [hdet] at h
      rw [ih h, executorDetach_ok hdet, detachIds_detachIds]
      simp [List.mem_cons]

/-! ## What becomes of a row -/

/-- What a link leaves of a row. -/
def Link.leaves (run : CascadeRun) (l : Link) (name : String) (row : LinkedRow) : Option LinkedRow :=
  if l.table = name ∧ run.Finds l.key row then
    match l.strategy with
    | .cascade =>
      if row.live (run.registry.softDelete name) then row.erased (run.registry.softDelete name) else some row
    | .setNull => some (row.detach l.key)
    | .nothing | .restrict => some row
  else some row

/-- What the links leave of a row, one after the other. -/
def Link.fate (run : CascadeRun) : List Link → String → LinkedRow → Option LinkedRow
  | [], _, row => some row
  | l :: links, name, row => (l.leaves run name row).bind (fate run links name)

/-- The ids are primary keys. -/
def UniqueIds (tables : LinkedTables) : Prop := ∀ name rows, tables name = some rows → (rows.map (·.id)).Nodup

/-- The rows whose ids are among those of the rows that meet a condition are these. -/
theorem mem_ids_iff {P : LinkedRow → Bool} (h : (rows.map (·.id)).Nodup) (hr : row ∈ rows) :
    row.id ∈ (rows.filter P).map (·.id) ↔ P row = true := by
  constructor
  · intro hid
    obtain ⟨r, hrf, he⟩ := List.mem_map.1 hid
    obtain ⟨hmem, hP⟩ := List.mem_filter.1 hrf
    rwa [List.inj_on_of_nodup_map h hmem hr he] at hP
  · exact fun hP => List.mem_map_of_mem (List.mem_filter.2 ⟨hr, hP⟩)

/-- The cascade of a link over its table. -/
theorem deleteChildren_rows (hn : (rows.map (·.id)).Nodup)
    (h : (run.childIds name key rows).foldlM (run.executorDelete name) rows = .ok rows') :
    rows' = rows.filterMap ((⟨name, key, .cascade⟩ : Link).leaves run name) := by
  rw [foldlM_executorDelete h]
  refine List.filterMap_congr fun row hr => ?_
  have hmem := mem_ids_iff (P := fun row =>
    run.Finds key row && row.live (run.registry.softDelete name)) hn hr
  rw [Bool.and_eq_true, decide_eq_true_eq] at hmem
  unfold Link.leaves CascadeRun.childIds
  simp only [true_and, decide_eq_true_eq, hmem]
  by_cases href : run.Finds key row
  · simp only [href, true_and, if_true]
  · simp only [href, false_and, if_false]

/-- What a strategy does to the table of its link. -/
theorem hasManyOnDelete_rows {strategy : OnDeleteStrategy} (hn : (rows.map (·.id)).Nodup)
    (h : run.hasManyOnDelete strategy name key rows = .ok rows') :
    rows' = rows.filterMap ((⟨name, key, strategy⟩ : Link).leaves run name) ∧
      (strategy = .restrict → ∀ row ∈ rows, ¬ run.Finds key row) := by
  have hsame : ∀ strategy, strategy = .nothing ∨ strategy = .restrict →
      rows = rows.filterMap ((⟨name, key, strategy⟩ : Link).leaves run name) := by
    intro strategy hs
    refine (List.filterMap_some.symm).trans (List.filterMap_congr fun row _ => ?_)
    unfold Link.leaves
    rcases hs with rfl | rfl <;> exact (ite_self _).symm
  cases strategy with
  | nothing =>
    cases h
    exact ⟨hsame _ (.inl rfl), fun hs => nomatch hs⟩
  | restrict =>
    simp only [CascadeRun.hasManyOnDelete, CascadeRun.rejectIfReferenced] at h
    split at h
    · cases h
    · next hnone =>
      cases h
      exact ⟨hsame _ (.inr rfl), fun _ row hr href => hnone ⟨row, hr, href⟩⟩
  | cascade =>
    simp only [CascadeRun.hasManyOnDelete, CascadeRun.deleteHasManyChildren] at h
    split at h
    · cases h
    · next childEntity _ =>
      cases hlock : run.rejectLockedChildren childEntity key rows with
      | error e =>
        rw [hlock] at h
        cases h
      | ok =>
        rw [hlock] at h
        exact ⟨deleteChildren_rows hn h, fun hs => nomatch hs⟩
  | setNull =>
    simp only [CascadeRun.hasManyOnDelete, CascadeRun.detachHasManyChildren] at h
    split at h
    · cases h
    · next childEntity _ =>
      cases hlock : run.rejectLockedChildren childEntity key rows with
      | error e =>
        rw [hlock] at h
        cases h
      | ok =>
        rw [hlock] at h
        refine ⟨?_, fun hs => nomatch hs⟩
        rw [foldlM_executorDetach h, detachIds, ← List.filterMap_eq_map]
        refine List.filterMap_congr fun row hr => ?_
        have hmem := mem_ids_iff (P := fun row => run.Finds key row) hn hr
        rw [decide_eq_true_eq] at hmem
        unfold Link.leaves
        simp only [Function.comp_apply, decide_eq_true_eq, hmem, true_and]
        split <;> rfl

theorem throughOnDelete_rows {strategy : OnDeleteStrategy} (hn : (rows.map (·.id)).Nodup)
    (h : run.throughOnDelete strategy name key rows = .ok rows') :
    rows' = rows.filterMap ((⟨name, key, if strategy = .setNull then .nothing else strategy⟩ : Link).leaves run
      name) ∧ (strategy = .restrict → ∀ row ∈ rows, ¬ run.Finds key row) := by
  cases strategy with
  | nothing | setNull =>
    have h : run.hasManyOnDelete .nothing name key rows = .ok rows' := h
    exact ⟨(hasManyOnDelete_rows hn h).1, fun hs => nomatch hs⟩
  | restrict =>
    have h : run.hasManyOnDelete .restrict name key rows = .ok rows' := h
    exact hasManyOnDelete_rows hn h
  | cascade =>
    simp only [CascadeRun.throughOnDelete, CascadeRun.deleteThroughRows] at h
    split at h
    · cases h
    · exact ⟨deleteChildren_rows hn h, fun hs => nomatch hs⟩

/-- A link changes no row's id, gives the hook nothing to find, and revives no row. -/
theorem leaves_some (h : l.leaves run name row = some row') :
    row'.id = row.id ∧ (∀ key, run.Finds key row' → run.Finds key row) ∧
      (row'.live (run.registry.softDelete name) → row.live (run.registry.softDelete name)) := by
  unfold Link.leaves at h
  split at h
  · split at h
    · split at h
      · obtain ⟨hid, htenant, hcolumns, hdead⟩ := erased_id h
        refine ⟨hid, fun key hf => ?_, fun hlive => absurd hlive (by simp [hdead])⟩
        rwa [CascadeRun.Finds, LinkedRow.References, hcolumns, reads_congr htenant] at hf
      · cases h
        exact ⟨rfl, fun _ => id, id⟩
    · cases h
      refine ⟨rfl, fun key hf => ?_, id⟩
      by_cases hkey : key = l.key
      · exact absurd (hkey ▸ hf) not_finds_detach
      · exact (finds_detach_iff hkey).1 hf
    all_goals
      cases h
      exact ⟨rfl, fun _ => id, id⟩
  · cases h
    exact ⟨rfl, fun _ => id, id⟩

theorem fate_some (h : Link.fate run links name row = some row') :
    row'.id = row.id ∧ (∀ key, run.Finds key row' → run.Finds key row) ∧
      (row'.live (run.registry.softDelete name) → row.live (run.registry.softDelete name)) := by
  induction links generalizing row with
  | nil =>
    cases h
    exact ⟨rfl, fun _ => id, id⟩
  | cons l links ih =>
    obtain ⟨row₁, h₁, h₂⟩ := Option.bind_eq_some_iff.1 h
    obtain ⟨hid₁, hfinds₁, hlive₁⟩ := leaves_some h₁
    obtain ⟨hid₂, hfinds₂, hlive₂⟩ := ih h₂
    exact ⟨hid₂.trans hid₁, fun key hf => hfinds₁ key (hfinds₂ key hf), fun hl => hlive₁ (hlive₂ hl)⟩

/-- Rows that keep their ids keep them apart. -/
theorem nodup_filterMap {f : LinkedRow → Option LinkedRow} (hf : ∀ row row', f row = some row' → row'.id = row.id)
    (hn : (rows.map (·.id)).Nodup) : ((rows.filterMap f).map (·.id)).Nodup := by
  refine hn.sublist ?_
  induction rows with
  | nil => exact .slnil
  | cons row rows ih =>
    have ih := ih (List.nodup_cons.1 hn).2
    rw [List.filterMap_cons]
    cases hrow : f row with
    | none => exact ih.cons _
    | some row' =>
      rw [List.map_cons, List.map_cons, hf row row' hrow]
      exact ih.cons_cons _

theorem UniqueIds.map {f : String → LinkedRow → Option LinkedRow}
    (hf : ∀ name row row', f name row = some row' → row'.id = row.id) (hu : UniqueIds tables)
    (h : ∀ name, tables' name = (tables name).map (·.filterMap (f name))) : UniqueIds tables' := by
  intro name rows hrows
  rw [h name] at hrows
  obtain ⟨rows₀, hrows₀, rfl⟩ := Option.map_eq_some_iff.1 hrows
  exact nodup_filterMap (hf name) (hu name rows₀ hrows₀)

/-- An update of the table of a link, for all tables. -/
theorem update_table (ht : tables l.table = some rows)
    (hrows : rows' = rows.filterMap (l.leaves run l.table)) (name : String) :
    Function.update tables l.table (some rows') name =
      (tables name).map (·.filterMap (l.leaves run name)) := by
  by_cases hname : name = l.table
  · subst hname
    rw [Function.update_self, ht, hrows]
    rfl
  · rw [Function.update_of_ne hname]
    have hsame : l.leaves run name = some := by
      funext row
      exact if_neg fun hl => hname hl.1.symm
    rw [hsame]
    cases tables name with
    | none => rfl
    | some rows => exact congrArg some List.filterMap_some.symm

/-- What a link does to the tables: to each row what it says, and a restrict link finds no reference. -/
structure Link.Applied (run : CascadeRun) (l : Link) (tables tables' : LinkedTables) : Prop where
  rows : ∀ name, tables' name = (tables name).map (·.filterMap (l.leaves run name))
  restricted : l.strategy = .restrict → ∀ rows, tables l.table = some rows →
    ∀ row ∈ rows, ¬ run.Finds l.key row

/-- A link whose table is not mapped does nothing. -/
theorem Link.applied_missing (hnone : tables l.table = none) : l.Applied run tables tables := by
  refine ⟨fun name => ?_, fun _ rows hrows => by simp [hnone] at hrows⟩
  by_cases hname : name = l.table
  · rw [hname, hnone]
    rfl
  · have hsame : l.leaves run name = some := by
      funext row
      exact if_neg fun hl => hname hl.1.symm
    rw [hsame]
    cases tables name with
    | none => rfl
    | some rows => exact congrArg some List.filterMap_some.symm

/-- The hook for one relation does what its link says. -/
theorem applyOnDelete_spec (hu : UniqueIds tables) (h : run.applyOnDelete tables relation = .ok tables') :
    (relation.link = none ∧ tables' = tables) ∨ ∃ l, relation.link = some l ∧ l.Applied run tables tables' := by
  cases relation with
  | belongsTo target foreignKey =>
    cases h
    exact .inl ⟨rfl, rfl⟩
  | hasMany target foreignKey onDelete =>
    simp only [CascadeRun.applyOnDelete] at h
    split at h
    · next hkey =>
      cases h
      exact .inl ⟨if_pos hkey, rfl⟩
    · next hkey =>
      refine .inr ⟨⟨target, foreignKey, onDeleteStrategyOf onDelete⟩, if_neg hkey, ?_⟩
      split at h
      · next hnone =>
        cases h
        exact Link.applied_missing hnone
      · next rows hrows =>
        cases hrun : run.hasManyOnDelete (onDeleteStrategyOf onDelete) target foreignKey rows with
        | error e =>
          rw [hrun] at h
          cases h
        | ok rows₁ =>
          rw [hrun] at h
          cases h
          obtain ⟨hmap, hrestrict⟩ := hasManyOnDelete_rows (hu _ _ hrows) hrun
          refine ⟨update_table (l := ⟨target, foreignKey, _⟩) hrows hmap, fun hs rows' hrows' => ?_⟩
          cases hrows.symm.trans hrows'
          exact hrestrict hs
  | manyToMany target throughTable sourceKey targetKey onDelete =>
    simp only [CascadeRun.applyOnDelete] at h
    refine .inr ⟨_, rfl, ?_⟩
    split at h
    · next hnone =>
      cases h
      exact Link.applied_missing hnone
    · next rows hrows =>
      cases hrun : run.throughOnDelete (onDeleteStrategyOf onDelete) throughTable sourceKey rows with
      | error e =>
        rw [hrun] at h
        cases h
      | ok rows₁ =>
        rw [hrun] at h
        cases h
        obtain ⟨hmap, hrestrict⟩ := throughOnDelete_rows (hu _ _ hrows) hrun
        refine ⟨update_table (l := ⟨throughTable, sourceKey, _⟩) hrows hmap, fun hs rows' hrows' => ?_⟩
        cases hrows.symm.trans hrows'
        refine hrestrict ?_
        by_contra hne
        simp only at hs
        split at hs
        · cases hs
        · exact hne hs

/-- The hook over the relations. -/
structure HookApplied (run : CascadeRun) (links : List Link) (tables tables' : LinkedTables) : Prop where
  rows : ∀ name, tables' name = (tables name).map (·.filterMap (Link.fate run links name))
  restricted : ∀ l ∈ links, l.strategy = .restrict → ∀ rows, tables' l.table = some rows →
    ∀ row ∈ rows, ¬ run.Finds l.key row

theorem foldlM_applyOnDelete {relations : List RelationDefinition} (hu : UniqueIds tables)
    (h : relations.foldlM run.applyOnDelete tables = .ok tables') :
    HookApplied run (relations.filterMap (·.link)) tables tables' := by
  induction relations generalizing tables with
  | nil =>
    cases h
    refine ⟨fun name => ?_, fun l hl => nomatch hl⟩
    cases tables' name with
    | none => rfl
    | some rows => exact congrArg some List.filterMap_some.symm
  | cons relation relations ih =>
    rw [List.foldlM_cons] at h
    cases happ : run.applyOnDelete tables relation with
    | error e =>
      rw [happ] at h
      cases h
    | ok tables₁ =>
      rw [happ] at h
      rcases applyOnDelete_spec hu happ with ⟨hnone, rfl⟩ | ⟨l, hl, hstep⟩
      · rw [List.filterMap_cons_none hnone]
        exact ih hu h
      · obtain ⟨hrows, hrestricted⟩ := ih (hu.map (fun _ _ _ hr => (leaves_some hr).1) hstep.rows) h
        rw [List.filterMap_cons_some hl]
        refine ⟨fun name => ?_, fun l' hl' hs rows hr row hmem href => ?_⟩
        · rw [hrows name, hstep.rows name, Option.map_map]
          refine congrArg (fun f => (tables name).map f) ?_
          funext rows
          exact List.filterMap_filterMap
        · rcases List.mem_cons.1 hl' with rfl | hl'
          · -- a reference that is left was there when the link looked
            rw [hrows l'.table, hstep.rows l'.table, Option.map_map] at hr
            obtain ⟨rows₀, hrows₀, rfl⟩ := Option.map_eq_some_iff.1 hr
            obtain ⟨row₁, hrow₁, hfate⟩ := List.mem_filterMap.1 hmem
            obtain ⟨row₀, hrow₀, hleaves⟩ := List.mem_filterMap.1 hrow₁
            exact hstep.restricted hs rows₀ hrows₀ row₀ hrow₀
              ((leaves_some hleaves).2.1 _ ((fate_some hfate).2.1 _ href))
          · exact hrestricted l' hl' hs rows hr row hmem href

/-! ## What becomes of a live row -/

theorem cascaded_cons : run.Cascaded (l :: links) name row ↔
    (l.table = name ∧ l.strategy = .cascade ∧ run.Finds l.key row) ∨
      ∃ before l' after, links = before ++ l' :: after ∧ l'.table = name ∧ l'.strategy = .cascade ∧
        run.Finds l'.key row ∧
        ¬ ∃ l'' ∈ l :: before, l''.table = name ∧ l''.key = l'.key ∧ l''.strategy = .setNull := by
  constructor
  · rintro ⟨before, l', after, hlinks, htable, hs, href, hnone⟩
    cases before with
    | nil =>
      obtain ⟨rfl, -⟩ := List.cons.inj hlinks
      exact .inl ⟨htable, hs, href⟩
    | cons l₀ before =>
      obtain ⟨hl, htail⟩ := List.cons.inj hlinks
      subst hl
      exact .inr ⟨before, l', after, htail, htable, hs, href, hnone⟩
  · rintro (⟨htable, hs, href⟩ | ⟨before, l', after, rfl, h⟩)
    · exact ⟨[], l, links, rfl, htable, hs, href, by simp⟩
    · exact ⟨l :: before, l', after, rfl, h⟩

/-- Past a link that takes no reference of the row away. -/
theorem cascaded_cons_of_keeps (hc : ¬ (l.table = name ∧ l.strategy = .cascade ∧ run.Finds l.key row))
    (hn : ¬ (l.table = name ∧ l.strategy = .setNull ∧ run.Finds l.key row)) :
    run.Cascaded (l :: links) name row ↔ run.Cascaded links name row := by
  rw [cascaded_cons, or_iff_right hc]
  constructor
  · rintro ⟨before, l', after, hlinks, htable, hs, href, hnone⟩
    exact ⟨before, l', after, hlinks, htable, hs, href, fun ⟨l'', hl, h⟩ => hnone ⟨l'', .tail _ hl, h⟩⟩
  · rintro ⟨before, l', after, hlinks, htable, hs, href, hnone⟩
    refine ⟨before, l', after, hlinks, htable, hs, href, ?_⟩
    rintro ⟨l'', hl, htable'', hkey, hs''⟩
    rcases List.mem_cons.1 hl with rfl | hl
    · exact hn ⟨htable'', hs'', hkey ▸ href⟩
    · exact hnone ⟨l'', hl, htable'', hkey, hs''⟩

/-- Past a link that detaches the row. -/
theorem cascaded_cons_of_detach (htable : l.table = name) (hs : l.strategy = .setNull)  :
    run.Cascaded (l :: links) name row ↔ run.Cascaded links name (row.detach l.key) := by
  rw [cascaded_cons, or_iff_right fun hc => by simp [hs] at hc]
  constructor
  · rintro ⟨before, l', after, hlinks, htable', hs', href, hnone⟩
    have hkey : l'.key ≠ l.key := fun hkey => hnone ⟨l, .head _, htable, hkey.symm, hs⟩
    refine ⟨before, l', after, hlinks, htable', hs', ?_, fun ⟨l'', hl, h⟩ => hnone ⟨l'', .tail _ hl, h⟩⟩
    exact (finds_detach_iff hkey).2 href
  · rintro ⟨before, l', after, hlinks, htable', hs', href, hnone⟩
    have hkey : l'.key ≠ l.key := fun hkey => not_finds_detach (hkey ▸ href)
    refine ⟨before, l', after, hlinks, htable', hs', (finds_detach_iff hkey).1 href, ?_⟩
    rintro ⟨l'', hl, htable'', hkey'', hs''⟩
    rcases List.mem_cons.1 hl with rfl | hl
    · exact hkey hkey''.symm
    · exact hnone ⟨l'', hl, htable'', hkey'', hs''⟩

/-- The live row is there after the links, without the references that they take away. -/
structure OutlivesDelete (run : CascadeRun) (links : List Link) (name : String) (row row' : LinkedRow) : Prop where
  fate : Link.fate run links name row = some row'
  live : row'.live (run.registry.softDelete name) = true
  id : row'.id = row.id
  tenantId : row'.tenantId = row.tenantId
  detached : ∀ key, run.Detached links name row key → row'.columns key = none
  kept : ∀ key, ¬ run.Detached links name row key → row'.columns key = row.columns key

/-- A live row survives the links unless one of them deletes it. -/
theorem survives_of_not_cascaded (hlive : row.live (run.registry.softDelete name) = true)
    (h : ¬ run.Cascaded links name row) : ∃ row', OutlivesDelete run links name row row' := by
  induction links generalizing row with
  | nil => exact ⟨row, rfl, hlive, rfl, rfl, fun key hd => by simp [CascadeRun.Detached] at hd, fun _ _ => rfl⟩
  | cons l links ih =>
    have hc : ¬ (l.table = name ∧ l.strategy = .cascade ∧ run.Finds l.key row) := fun hc =>
      h (cascaded_cons.2 (.inl hc))
    by_cases hn : l.table = name ∧ l.strategy = .setNull ∧ run.Finds l.key row
    · obtain ⟨htable, hs, href⟩ := hn
      have hrest : ∃ row', OutlivesDelete run links name (row.detach l.key) row' :=
        ih hlive fun hcas => h ((cascaded_cons_of_detach htable hs).2 hcas)
      obtain ⟨row', hr⟩ := hrest
      have hleaves : l.leaves run name row = some (row.detach l.key) := by
        unfold Link.leaves
        rw [if_pos ⟨htable, href⟩, hs]
      refine ⟨row', ?_, hr.live, hr.id, hr.tenantId, fun key hd => ?_, fun key hd => ?_⟩
      · rw [Link.fate, hleaves]
        exact hr.fate
      · by_cases hkey : key = l.key
        · subst hkey
          rw [hr.kept _ fun hd => not_finds_detach hd.1, detach_columns]
        · obtain ⟨href', l', hl', htable', hkey', hs'⟩ := hd
          refine hr.detached key ⟨(finds_detach_iff hkey).2 href', l', ?_, htable', hkey', hs'⟩
          rcases List.mem_cons.1 hl' with rfl | hl'
          · exact absurd hkey'.symm hkey
          · exact hl'
      · have hkey : key ≠ l.key := by
          rintro rfl
          exact hd ⟨href, l, .head _, htable, rfl, hs⟩
        rw [hr.kept key, detach_columns_of_ne hkey]
        rintro ⟨href', l', hl', hrest⟩
        exact hd ⟨(finds_detach_iff hkey).1 href', l', .tail _ hl', hrest⟩
    · obtain ⟨row', hr⟩ := ih hlive fun hcas => h ((cascaded_cons_of_keeps hc hn).2 hcas)
      have hleaves : l.leaves run name row = some row := by
        unfold Link.leaves
        split
        · next happ =>
          cases hs : l.strategy with
          | nothing | restrict => rfl
          | cascade => exact absurd ⟨happ.1, hs, happ.2⟩ hc
          | setNull => exact absurd ⟨happ.1, hs, happ.2⟩ hn
        · rfl
      refine ⟨row', ?_, hr.live, hr.id, hr.tenantId, fun key hd => ?_, fun key hd => ?_⟩
      · rw [Link.fate, hleaves]
        exact hr.fate
      · obtain ⟨href, l', hl', htable, hkey, hs⟩ := hd
        refine hr.detached key ⟨href, l', ?_, htable, hkey, hs⟩
        rcases List.mem_cons.1 hl' with rfl | hl'
        · exact absurd ⟨htable, hs, hkey ▸ href⟩ hn
        · exact hl'
      · exact hr.kept key fun ⟨href, l', hl', hrest⟩ => hd ⟨href, l', .tail _ hl', hrest⟩

/-- A row that a link deletes is not live afterwards. -/
theorem not_live_of_cascaded (h : run.Cascaded links name row)
    (hfate : Link.fate run links name row = some row') :
    row'.live (run.registry.softDelete name) = false := by
  induction links generalizing row with
  | nil =>
    obtain ⟨before, l, after, hlinks, -⟩ := h
    exact absurd hlinks (by simp)
  | cons l links ih =>
    obtain ⟨row₁, hleaves, hrest⟩ := Option.bind_eq_some_iff.1 hfate
    by_contra hlive
    have hlive : row'.live (run.registry.softDelete name) = true := by simpa using hlive
    have hlive₁ := (fate_some hrest).2.2 hlive
    have hlive₀ := (leaves_some hleaves).2.2 hlive₁
    by_cases hc : l.table = name ∧ l.strategy = .cascade ∧ run.Finds l.key row
    · obtain ⟨htable, hs, href⟩ := hc
      unfold Link.leaves at hleaves
      rw [if_pos ⟨htable, href⟩, hs] at hleaves
      simp only [hlive₀, if_true] at hleaves
      rw [(erased_id hleaves).2.2.2] at hlive₁
      cases hlive₁
    · by_cases hn : l.table = name ∧ l.strategy = .setNull ∧ run.Finds l.key row
      · obtain ⟨htable, hs, href⟩ := hn
        unfold Link.leaves at hleaves
        rw [if_pos ⟨htable, href⟩, hs] at hleaves
        cases hleaves
        rw [ih ((cascaded_cons_of_detach htable hs).1 h) hrest] at hlive
        cases hlive
      · have hsame : row₁ = row := by
          unfold Link.leaves at hleaves
          split at hleaves
          · next happ =>
            cases hs : l.strategy with
            | nothing | restrict =>
              simp only [hs] at hleaves
              exact (Option.some.inj hleaves).symm
            | cascade => exact absurd ⟨happ.1, hs, happ.2⟩ hc
            | setNull => exact absurd ⟨happ.1, hs, happ.2⟩ hn
          · exact (Option.some.inj hleaves).symm
        subst hsame
        rw [ih ((cascaded_cons_of_keeps hc hn).1 h) hrest] at hlive
        cases hlive

/-! ## Deletes -/

/-- A delete that succeeds deletes the parent row and does to each other row what the links say. -/
structure Deleted (run : CascadeRun) (tables tables' : LinkedTables) : Prop where
  unique : UniqueIds tables
  parent : run.registry.LiveIn tables run.entityName run.parentId
  /-- A row that is live afterwards was live, is not the parent and was spared by the cascades. -/
  spared : ∀ name rows', tables' name = some rows' → ∀ row' ∈ rows', row'.live (run.registry.softDelete name) →
    ∃ rows, tables name = some rows ∧ ∃ row ∈ rows, row.live (run.registry.softDelete name) ∧
      (name, row.id) ≠ (run.entityName, run.parentId) ∧
      ¬ run.Cascaded (run.registry.links run.entityName) name row ∧
      OutlivesDelete run (run.registry.links run.entityName) name row row'
  /-- And such a row is live afterwards. -/
  survives : ∀ name rows, tables name = some rows → ∀ row ∈ rows, row.live (run.registry.softDelete name) →
    (name, row.id) ≠ (run.entityName, run.parentId) → ¬ run.Cascaded (run.registry.links run.entityName) name row →
    ∃ rows' row', tables' name = some rows' ∧ row' ∈ rows' ∧
      OutlivesDelete run (run.registry.links run.entityName) name row row'
  restricted : ∀ l ∈ run.registry.links run.entityName, l.strategy = .restrict → ∀ rows, tables' l.table = some rows →
    ∀ row ∈ rows, ¬ run.Finds l.key row

/-- The live rows after the parent's own delete. -/
theorem mem_parentErased (hrows : tables run.entityName = some rows) (name : String) :
    (∃ rows₁, Function.update tables run.entityName
        (some (eraseIds (run.registry.softDelete run.entityName) (· = run.parentId) rows)) name = some rows₁ ∧
      row ∈ rows₁ ∧ row.live (run.registry.softDelete name)) ↔
    ∃ rows₀, tables name = some rows₀ ∧ row ∈ rows₀ ∧ row.live (run.registry.softDelete name) ∧
      (name, row.id) ≠ (run.entityName, run.parentId) := by
  by_cases hname : name = run.entityName
  · subst hname
    simp only [Function.update_self, hrows, Option.some.injEq, exists_eq_left', ne_eq, Prod.mk.injEq, true_and]
    constructor
    · rintro ⟨hmem, hlive⟩
      obtain ⟨row₀, hrow₀, herased⟩ := List.mem_filterMap.1 hmem
      split at herased
      · rw [(erased_id herased).2.2.2] at hlive
        cases hlive
      · next hne =>
        cases herased
        exact ⟨hrow₀, hlive, by simpa using hne⟩
    · rintro ⟨hmem, hlive, hne⟩
      exact ⟨List.mem_filterMap.2 ⟨row, hmem, by simp [hne]⟩, hlive⟩
  · rw [Function.update_of_ne hname]
    have hpair : (name, row.id) ≠ (run.entityName, run.parentId) := fun he => hname (Prod.ext_iff.1 he).1
    simp only [hpair, ne_eq, not_false_iff, and_true]

theorem deleteEntity_ok (hu : UniqueIds tables) (h : run.deleteEntity tables = .ok tables') :
    Deleted run tables tables' := by
  unfold CascadeRun.deleteEntity at h
  split at h
  · cases h
  · next rows hrows =>
    cases hdel : run.executorDelete run.entityName rows run.parentId with
    | error e =>
      rw [hdel] at h
      cases h
    | ok rows₁ =>
      rw [hdel] at h
      obtain ⟨rfl, parent, hparent, hid, hlive⟩ := executorDelete_ok hdel
      have hu₁ : UniqueIds (Function.update tables run.entityName
          (some (eraseIds (run.registry.softDelete run.entityName) (· = run.parentId) rows))) := by
        intro name rows' hrows'
        by_cases hname : name = run.entityName
        · subst hname
          rw [Function.update_self, Option.some.injEq] at hrows'
          subst hrows'
          refine nodup_filterMap (fun row row' hrow => ?_) (hu _ _ hrows)
          split at hrow
          · exact (erased_id hrow).1
          · cases hrow
            rfl
        · rw [Function.update_of_ne hname] at hrows'
          exact hu _ _ hrows'
      have hhook : HookApplied run (run.registry.links run.entityName) _ tables' := foldlM_applyOnDelete hu₁ h
      refine ⟨hu, ⟨rows, hrows, parent, hparent, hid, hlive⟩, fun name rows' hrows' row' hrow' hlive' => ?_,
        fun name rows₀ hrows₀ row hrow hliveRow hne hcas => ?_, hhook.restricted⟩
      · rw [hhook.rows name] at hrows'
        obtain ⟨rows₂, hrows₂, rfl⟩ := Option.map_eq_some_iff.1 hrows'
        obtain ⟨row, hrow, hfate⟩ := List.mem_filterMap.1 hrow'
        obtain ⟨rows₀, hrows₀, hmem, hliveRow, hne⟩ :=
          (mem_parentErased hrows name).1 ⟨rows₂, hrows₂, hrow, (fate_some hfate).2.2 hlive'⟩
        have hcas : ¬ run.Cascaded (run.registry.links run.entityName) name row := fun hcas => by
          rw [not_live_of_cascaded hcas hfate] at hlive'
          cases hlive'
        obtain ⟨row'', hs⟩ := survives_of_not_cascaded hliveRow hcas
        have hsame : row'' = row' := Option.some.inj (hs.fate.symm.trans hfate)
        exact ⟨rows₀, hrows₀, row, hmem, hliveRow, hne, hcas, hsame ▸ hs⟩
      · obtain ⟨rows₂, hrows₂, hmem, -⟩ :=
          (mem_parentErased hrows name).2 ⟨rows₀, hrows₀, hrow, hliveRow, hne⟩
        obtain ⟨row', hs⟩ := survives_of_not_cascaded hliveRow hcas
        refine ⟨_, row', ?_, List.mem_filterMap.2 ⟨row, hmem, hs.fate⟩, hs⟩
        rw [hhook.rows name, hrows₂]
        rfl

/-- What is deleted was the parent or a row that a cascade found. -/
theorem Deleted.gone (h : Deleted run tables tables') (hrows : tables name = some rows) (hrow : row ∈ rows)
    (hlive : row.live (run.registry.softDelete name)) (hgone : ¬ run.registry.LiveIn tables' name row.id) :
    (name, row.id) = (run.entityName, run.parentId) ∨ run.Cascaded (run.registry.links run.entityName) name row := by
  by_contra hn
  rw [not_or] at hn
  obtain ⟨rows', row', hrows', hrow', hs⟩ := h.survives name rows hrows row hrow hlive hn.1 hn.2
  exact hgone ⟨rows', hrows', row', hrow', hs.id, hs.live⟩

/-- A row that still references something was not detached from it. -/
theorem OutlivesDelete.not_detached (hs : OutlivesDelete run links name row row') (href : row'.References key id) :
    ¬ run.Detached links name row key := fun hd => by
  rw [LinkedRow.References, hs.detached _ hd] at href
  cases href

/-- No live row references the parent through a cascade or a restrict, when the hook reads all that do. -/
theorem Deleted.parent_unreferenced (h : Deleted run tables tables') (hseen : run.Seen tables)
    {strategy : OnDeleteStrategy} (hstrategy : strategy = .cascade ∨ strategy = .restrict) :
    run.registry.Unreferenced tables' strategy run.entityName run.parentId := by
  rintro l hl rfl rows' hrows' row' hrow' hlive' href
  obtain ⟨rows, hrows, row, hrow, hlive, hne, hcas, hs⟩ := h.spared _ _ hrows' row' hrow' hlive'
  have hdetached := hs.not_detached href
  have href₀ : row.References l.key run.parentId := (hs.kept _ hdetached).symm.trans href
  have hreads := hseen l hl hstrategy rows hrows row hrow hlive hne href₀
  rcases hstrategy with hstrategy | hstrategy
  · obtain ⟨before, after, hlinks⟩ := List.append_of_mem hl
    refine hcas ⟨before, l, after, hlinks, rfl, hstrategy, ⟨href₀, hreads⟩, ?_⟩
    rintro ⟨l', hl', htable, hkey, hs'⟩
    exact hdetached ⟨⟨href₀, hreads⟩, l', hlinks ▸ List.mem_append_left _ hl', htable, hkey, hs'⟩
  · exact h.restricted l hl hstrategy rows' hrows' row' hrow' ⟨href, (reads_congr hs.tenantId).trans hreads⟩

/-- The parent is deleted. -/
theorem Deleted.parent_gone (h : Deleted run tables tables') :
    ¬ run.registry.LiveIn tables' run.entityName run.parentId := by
  rintro ⟨rows', hrows', row', hrow', hid, hlive⟩
  obtain ⟨-, -, row, -, -, hne, -, hs⟩ := h.spared _ _ hrows' row' hrow' hlive
  exact hne (by rw [← hs.id, hid])

theorem CascadeRegistry.DeletesWhole.unreferenced (hw : registry.DeletesWhole tables tables')
    {strategy : OnDeleteStrategy} (hstrategy : strategy = .cascade ∨ strategy = .restrict)
    (hlive : registry.LiveIn tables name id) (hgone : ¬ registry.LiveIn tables' name id) :
    registry.Unreferenced tables' strategy name id := by
  rcases hstrategy with rfl | rfl
  · exact hw.cascade name id hlive hgone
  · exact hw.restrict name id hlive hgone

/-- A row that references the parent and is not read outlives the delete with its reference. -/
theorem Deleted.seen (h : Deleted run tables tables') (hw : run.registry.DeletesWhole tables tables') :
    run.Seen tables := by
  intro l hl hstrategy rows hrows row hrow hlive hne href
  by_contra hreads
  have hcas : ¬ run.Cascaded (run.registry.links run.entityName) l.table row := by
    rintro ⟨_, _, _, _, _, _, hf, _⟩
    exact hreads hf.2
  obtain ⟨rows', row', hrows', hrow', hs⟩ := h.survives _ _ hrows row hrow hlive hne hcas
  have href' : row'.References l.key run.parentId := (hs.kept l.key fun hd => hreads hd.1.2).trans href
  exact hw.unreferenced hstrategy h.parent h.parent_gone l hl rfl rows' hrows' row' hrow' hs.live href'

/-- So does a row that references one of those that the hook deletes. -/
theorem Deleted.shallow (h : Deleted run tables tables') (hw : run.registry.DeletesWhole tables tables') :
    run.Shallow tables := by
  intro name rows hrows child hchild hliveChild hcas hne l hl hstrategy rows' hrows' row hrow hlive href
  by_contra hn
  simp only [not_or] at hn
  obtain ⟨hparent, hspared, hdetached⟩ := hn
  obtain ⟨rows₂, row₂, hrows₂, hrow₂, hs⟩ := h.survives _ _ hrows' row hrow hlive hparent hspared
  have hgone : ¬ run.registry.LiveIn tables' name child.id := by
    rintro ⟨rows₃, hrows₃, row₃, hrow₃, hid₃, hlive₃⟩
    obtain ⟨rows₄, hrows₄, row₄, hrow₄, -, -, hcas₄, hs₄⟩ := h.spared _ _ hrows₃ row₃ hrow₃ hlive₃
    cases hrows.symm.trans hrows₄
    have hsame : row₄ = child :=
      List.inj_on_of_nodup_map (h.unique _ _ hrows) hrow₄ hchild (hs₄.id.symm.trans hid₃)
    exact hcas₄ (hsame ▸ hcas)
  have href₂ : row₂.References l.key child.id := (hs.kept _ hdetached).trans href
  exact hw.unreferenced hstrategy ⟨rows, hrows, child, hchild, rfl, hliveChild⟩ hgone l hl rfl rows₂ hrows₂ row₂ hrow₂
    hs.live href₂

/-- Nothing references a row that the hook deleted, where only what it deletes or detaches too did. -/
theorem Deleted.child_unreferenced (h : Deleted run tables tables') (hshallow : run.Shallow tables)
    {strategy : OnDeleteStrategy} (hstrategy : strategy = .cascade ∨ strategy = .restrict) {child : LinkedRow}
    (hrows : tables name = some rows) (hchild : child ∈ rows) (hlive : child.live (run.registry.softDelete name))
    (hcas : run.Cascaded (run.registry.links run.entityName) name child)
    (hparent : (name, child.id) ≠ (run.entityName, run.parentId)) :
    run.registry.Unreferenced tables' strategy name child.id := by
  rintro l hl rfl rows' hrows' row' hrow' hlive' href
  obtain ⟨rows₀, hrows₀, row, hrow, hliveRow, hne, hspared, hs⟩ := h.spared _ _ hrows' row' hrow' hlive'
  have hdetached := hs.not_detached href
  rcases hshallow name rows hrows child hchild hlive hcas hparent l hl hstrategy rows₀ hrows₀ row hrow hliveRow
    ((hs.kept _ hdetached).symm.trans href) with h₁ | h₁ | h₁
  · exact hne h₁
  · exact hspared h₁
  · exact hdetached h₁

/-- A delete leaves no reference to what it deleted, just when the hook reads what references the parent and the rows
that it deletes are referenced by no others. -/
theorem Deleted.deletesWhole_iff (h : Deleted run tables tables') :
    run.registry.DeletesWhole tables tables' ↔ run.Seen tables ∧ run.Shallow tables := by
  refine ⟨fun hw => ⟨h.seen hw, h.shallow hw⟩, ?_⟩
  rintro ⟨hseen, hshallow⟩
  have hall : ∀ strategy, strategy = .cascade ∨ strategy = .restrict → ∀ name id,
      run.registry.LiveIn tables name id → ¬ run.registry.LiveIn tables' name id →
      run.registry.Unreferenced tables' strategy name id := by
    rintro strategy hstrategy name _ ⟨rows, hrows, child, hchild, rfl, hlive⟩ hgone
    by_cases hparent : (name, child.id) = (run.entityName, run.parentId)
    · obtain ⟨hname, hid⟩ := Prod.ext_iff.1 hparent
      have hname : name = run.entityName := hname
      have hid : child.id = run.parentId := hid
      rw [hname, hid]
      exact h.parent_unreferenced hseen hstrategy
    · have hcas := (h.gone hrows hchild hlive hgone).resolve_left hparent
      exact h.child_unreferenced hshallow hstrategy hrows hchild hlive hcas hparent
  exact ⟨hall .cascade (.inl rfl), hall .restrict (.inr rfl)⟩

/-- A delete that fails, as one that a restrict link blocks does, changes nothing, and one that succeeds leaves no
reference to what it deleted, just when the hook reads what references the parent and the rows that it deletes are
referenced by no others. -/
theorem deletesWhole_of_delete (hu : UniqueIds tables) (run : CascadeRun) :
    (∃ e, run.deleteEntity tables = .error e ∧ run.afterDelete tables = tables) ∨
      ∃ tables', run.deleteEntity tables = .ok tables' ∧ run.afterDelete tables = tables' ∧
        (run.registry.DeletesWhole tables tables' ↔ run.Seen tables ∧ run.Shallow tables) := by
  unfold CascadeRun.afterDelete
  cases h : run.deleteEntity tables with
  | error e => exact .inl ⟨e, rfl, rfl⟩
  | ok tables' => exact .inr ⟨tables', rfl, rfl, (deleteEntity_ok hu h).deletesWhole_iff⟩

end

/-! ## A chain of two cascades -/

/-- Teams, the members of a team, and the tasks of a member: the deletes of a team and of a member cascade. -/
def teamRegistry : CascadeRegistry where
  getRelations name :=
    if name = "team" then [.hasMany "member" "teamId" (some .cascade)]
    else if name = "member" then [.hasMany "task" "memberId" (some .cascade)] else []
  getEntity _ := some ⟨false, none⟩
  refusesDelete _ _ := false
  refusesUpdate _ _ := false

/-- A team with one member, and some tasks. -/
def teamTables (tasks : List LinkedRow) : LinkedTables := fun name =>
  if name = "team" then some [⟨"t1", some "tenant-a", false, fun _ => none⟩]
  else if name = "member" then
    some [⟨"m1", some "tenant-a", false, fun key => if key = "teamId" then some "t1" else none⟩]
  else if name = "task" then some tasks else none

/-- A task of the member. -/
def memberTask : LinkedRow := ⟨"k1", some "tenant-a", false, fun key => if key = "memberId" then some "m1" else none⟩

def deleteTeam : CascadeRun := ⟨teamRegistry, ⟨false, "tenant-a"⟩, "team", "t1", false⟩

theorem teamTables_unique (tasks : List LinkedRow) (h : (tasks.map (·.id)).Nodup) : UniqueIds (teamTables tasks) := by
  intro name rows hrows
  unfold teamTables at hrows
  split at hrows
  · cases hrows
    simp
  · split at hrows
    · cases hrows
      simp
    · split at hrows
      · cases hrows
        exact h
      · cases hrows

theorem teamTables_delete (tasks : List LinkedRow) :
    ∃ tables', deleteTeam.deleteEntity (teamTables tasks) = .ok tables' := by
  cases h : deleteTeam.deleteEntity (teamTables tasks) with
  | ok tables' => exact ⟨tables', rfl⟩
  | error e =>
    have hok : (deleteTeam.deleteEntity (teamTables tasks)).toBool = true := rfl
    rw [h] at hok
    cases hok

/-- The members of a team go with it, when they have no tasks. -/
theorem deletesWhole_of_delete_team : ∃ tables', deleteTeam.deleteEntity (teamTables []) = .ok tables' ∧
    teamRegistry.DeletesWhole (teamTables []) tables' := by
  have hshallow : deleteTeam.Shallow (teamTables []) := by
    intro name rows hrows child hchild _ _ hne l hl _ rows' hrows' row hrow _ _
    by_cases hteam : name = "team"
    · subst hteam
      cases hrows
      rw [List.mem_singleton] at hchild
      exact absurd (by rw [hchild]; rfl) hne
    · by_cases hmember : name = "member"
      · subst hmember
        have hl : l = ⟨"task", "memberId", .cascade⟩ := List.mem_singleton.1 hl
        subst hl
        cases hrows'
        cases hrow
      · have hnone : teamRegistry.links name = [] := by
          simp [CascadeRegistry.links, teamRegistry, hteam, hmember]
        have hl : l ∈ teamRegistry.links name := hl
        rw [hnone] at hl
        cases hl
  have hseen : deleteTeam.Seen (teamTables []) := by
    intro l hl _ rows hrows row hrow _ _ _
    have hl : l = ⟨"member", "teamId", .cascade⟩ := List.mem_singleton.1 hl
    subst hl
    cases hrows
    rw [List.mem_singleton.1 hrow]
    rfl
  rcases deletesWhole_of_delete (teamTables_unique [] .nil) deleteTeam with ⟨e, he, -⟩ | ⟨tables', hok, -, hiff⟩
  · obtain ⟨tables', hok⟩ := teamTables_delete []
    rw [he] at hok
    cases hok
  · exact ⟨tables', hok, hiff.2 ⟨hseen, hshallow⟩⟩

/-- The tasks of a member stay, with a reference to the member that went with its team. -/
theorem not_deletesWhole : ¬ ∀ (run : CascadeRun) (tables tables' : LinkedTables), UniqueIds tables →
    run.deleteEntity tables = .ok tables' → run.registry.DeletesWhole tables tables' := by
  intro h
  have hu := teamTables_unique [memberTask] (by simp)
  obtain ⟨tables', hok⟩ := teamTables_delete [memberTask]
  obtain ⟨-, hshallow⟩ := (deleteEntity_ok hu hok).deletesWhole_iff.1 (h deleteTeam _ _ hu hok)
  have hlinks : deleteTeam.registry.links deleteTeam.entityName = [⟨"member", "teamId", .cascade⟩] := rfl
  have hmember : deleteTeam.Cascaded (deleteTeam.registry.links deleteTeam.entityName) "member"
      ⟨"m1", some "tenant-a", false, fun key => if key = "teamId" then some "t1" else none⟩ :=
    ⟨[], ⟨"member", "teamId", .cascade⟩, [], hlinks, rfl, rfl, ⟨rfl, rfl⟩, by simp⟩
  rcases hshallow "member" _ rfl _ (.head _) rfl hmember (by decide) ⟨"task", "memberId", .cascade⟩ (.head _) (.inl rfl)
    [memberTask] rfl memberTask (.head _) rfl rfl with hparent | hcas | ⟨-, l, hl, -, -, hs⟩
  · exact absurd hparent (by decide)
  · obtain ⟨before, l, after, hsplit, htable, -⟩ := hcas
    have hl : l ∈ deleteTeam.registry.links deleteTeam.entityName := by
      rw [hsplit]
      simp
    rw [hlinks, List.mem_singleton] at hl
    subst hl
    exact absurd htable (by decide)
  · rw [hlinks, List.mem_singleton] at hl
    subst hl
    cases hs

end Kumiko
