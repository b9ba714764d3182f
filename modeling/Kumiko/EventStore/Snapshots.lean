import Mathlib.Data.List.MinMax
import Kumiko.EventStore.Append
import Kumiko.Library.Run

/-!
# Snapshots of aggregates

`event-store/snapshot.ts`: a snapshot is the state that a reducer has made of the first events of an aggregate.
A load takes the latest one of its tenant and generation, folds the events after it, and may save a new one. The
rows are keyed by aggregate and version, so the save of one tenant replaces the state of another; where none
does, a load folds as if there were no snapshots (`snapshot_transparent_of_run`).
-/

namespace Kumiko

open Transition

variable {S P : Type*}

/-! ## Generations -/

/-- Reference: `ENTITY_EVENT_VERSION_RADIX`. -/
def entityEventVersionRadix : ℤ := 1000

/-- Reference: `effectiveSnapshotGeneration`. -/
def effectiveSnapshotGeneration (callerVersion : ℤ) : Option ℤ → ℤ
  | none => callerVersion
  | some entityEventVersion =>
    if entityEventVersion = 1 then callerVersion
    else -(callerVersion * entityEventVersionRadix + entityEventVersion)

/-- From the radix on it does not. -/
example : effectiveSnapshotGeneration 1 (some 1002) = effectiveSnapshotGeneration 2 (some 2) := by decide

/-! ## Events, rows and loads -/

/-- An event of an aggregate. -/
structure SnapshotEvent (P : Type*) where
  tenantId : String
  aggregateId : String
  aggregateType : String
  payload : P

def SnapshotEvent.stream (e : SnapshotEvent P) : String × String := (e.tenantId, e.aggregateId)

/-- A row of `kumiko_snapshots`, and what a save passes. Its column `state` is JSON, which `jsonb` makes of a state.
Reference: `snapshotsTable`, `SaveSnapshotParams`. -/
structure SnapshotRow (S : Type*) where
  aggregateId : String
  tenantId : String
  aggregateType : String
  version : ℕ
  state : S
  snapshotVersion : ℤ

/-- The primary key. -/
def SnapshotRow.key (row : SnapshotRow S) : String × ℕ := (row.aggregateId, row.version)

/-- The save of a row: an insert, or an update of the row with its key, which keeps its tenant. Reference:
`upsertSnapshot`. -/
def upsertSnapshot (rows : List (SnapshotRow S)) (save : SnapshotRow S) : List (SnapshotRow S) :=
  if rows.any (·.key = save.key) then
    rows.map fun row =>
      if row.key = save.key then { save with tenantId := row.tenantId } else row
  else rows ++ [save]

/-- Reference: `loadLatestSnapshot`. -/
def loadLatestSnapshot (rows : List (SnapshotRow S)) (tenantId aggregateId : String) : Option (SnapshotRow S) :=
  (rows.filter fun row => row.aggregateId = aggregateId ∧ row.tenantId = tenantId).argmax (·.version)

/-- How a state is made of events. -/
structure Rehydration (S P : Type*) where
  initial : S
  apply : S → SnapshotEvent P → S

/-- The state after some events. -/
def Rehydration.fold (f : Rehydration S P) (events : List (SnapshotEvent P)) : S := events.foldl f.apply f.initial

/-- The arguments of `loadAggregateWithSnapshot`, with the versions and upcasters of the process that runs it. -/
structure SnapshotLoad (S P : Type*) where
  aggregateId : String
  tenantId : String
  reducer : S → SnapshotEvent P → S
  initial : S
  includeArchived : Bool
  snapshotVersion : Option ℤ
  snapshotEvery : Option ℤ
  entityEventVersionOf : String → Option ℤ
  upcastEvent : SnapshotEvent P → SnapshotEvent P

namespace SnapshotLoad

variable (load : SnapshotLoad S P)

/-- Reference: `generationFor`. -/
def generationFor (aggregateType : String) : ℤ :=
  effectiveSnapshotGeneration (load.snapshotVersion.getD 1) (load.entityEventVersionOf aggregateType)

/-- The fold over the whole stream, with the current reducer and upcasters. -/
def rehydration : Rehydration S P := ⟨load.initial, fun state event => load.reducer state (load.upcastEvent event)⟩

/-- The snapshot, where it is of the caller's generation. -/
def usable (stored : Option (SnapshotRow S)) : Option (SnapshotRow S) :=
  stored.filter fun row => row.snapshotVersion = load.generationFor row.aggregateType

/-- The version after which a load reads the events. -/
def afterVersion : Option (SnapshotRow S) → ℕ
  | some row => row.version
  | none => 0

/-- The state that a load starts from. -/
def baseState : Option (SnapshotRow S) → S
  | some row => row.state
  | none => load.initial

/-- The state and the version that a load returns: the snapshot's or the initial state, and the events after it.
Reference: `loadAggregateWithSnapshot`, `loadEventsAfterVersion`. -/
def result (snapshot : Option (SnapshotRow S)) (stream : List (SnapshotEvent P)) : S × ℕ :=
  let delta := stream.drop (afterVersion snapshot)
  (delta.foldl (fun state event => load.reducer state (load.upcastEvent event)) (load.baseState snapshot),
    if delta = [] then afterVersion snapshot else afterVersion snapshot + delta.length)

end SnapshotLoad

/-! ## Clients -/

/-- The events of a stream, in the order of their versions. -/
def streamOf (events : List (SnapshotEvent P)) (stream : String × String) : List (SnapshotEvent P) :=
  events.filter (·.stream = stream)

/-- Before which statement a load is, or what it has returned. -/
inductive LoadPhase (S P : Type*) where
  | archiveCheck (load : SnapshotLoad S P)
  | latest (load : SnapshotLoad S P)
  | delta (load : SnapshotLoad S P) (snapshot : Option (SnapshotRow S))
  | save (row : SnapshotRow S)
  | returned (state : S) (version : ℕ)

/-- The state and the version that a load has made. -/
def LoadPhase.answer : LoadPhase S P → Option (S × ℕ)
  | .save row => some (row.state, row.version)
  | .returned state version => some (state, version)
  | _ => none

/-- A client: what its transaction has appended and saved, and its load. -/
structure SnapshotClient (S P : Type*) where
  inTx : Bool
  events : List (SnapshotEvent P)
  saves : List (SnapshotRow S)
  phase : Option (LoadPhase S P)

/-- The committed events, the rows of `kumiko_snapshots`, the archived streams and the clients. -/
structure SnapshotStore (S P : Type*) (n : ℕ) where
  events : List (SnapshotEvent P)
  rows : List (SnapshotRow S)
  archived : List (String × String)
  clients : Fin n → SnapshotClient S P

/-- A statement of a client. -/
inductive SnapshotAct (S P : Type*) (n : ℕ) where
  | begin (k : Fin n)
  | commit (k : Fin n)
  | rollback (k : Fin n)
  /-- An event at the end of its stream. -/
  | append (k : Fin n) (e : SnapshotEvent P)
  /-- Reference: `ctx.events.snapshot`. -/
  | save (k : Fin n) (row : SnapshotRow S)
  | load (k : Fin n) (load : SnapshotLoad S P)
  /-- The next statement of the load. -/
  | run (k : Fin n)
  /-- The save of the load fails, which is logged. -/
  | skip (k : Fin n)
  | archive (stream : String × String)
  | restore (stream : String × String)

namespace SnapshotStore

variable {n : ℕ} (jsonb : S → S) (s : SnapshotStore S P n)

def initial : SnapshotStore S P n := ⟨[], [], [], fun _ => ⟨false, [], [], none⟩⟩

def setClient (k : Fin n) (client : SnapshotClient S P) : SnapshotStore S P n :=
  { s with clients := Function.update s.clients k client }

/-- The events that a client sees. -/
def view (k : Fin n) : List (SnapshotEvent P) := s.events ++ (s.clients k).events

/-- The snapshots that a client sees. -/
def rowsOf (k : Fin n) : List (SnapshotRow S) := (s.clients k).saves.foldl upsertSnapshot s.rows

/-- Another transaction has appended to the stream. Its versions are taken until it ends. -/
def StreamHeld (k : Fin n) (stream : String × String) : Prop :=
  ∃ k', k' ≠ k ∧ ∃ e ∈ (s.clients k').events, e.stream = stream

/-- Another transaction has saved a row with the key, and holds it until it ends. -/
def KeyHeld (k : Fin n) (key : String × ℕ) : Prop := ∃ k', k' ≠ k ∧ ∃ row ∈ (s.clients k').saves, row.key = key

instance (k : Fin n) (stream : String × String) : Decidable (s.StreamHeld k stream) :=
  inferInstanceAs (Decidable (∃ _, _))

instance (k : Fin n) (key : String × ℕ) : Decidable (s.KeyHeld k key) := inferInstanceAs (Decidable (∃ _, _))

/-- What the client has written is committed. -/
def flush (k : Fin n) : SnapshotStore S P n :=
  { s.setClient k ⟨false, [], [], (s.clients k).phase⟩ with events := s.view k, rows := s.rowsOf k }

/-- The client writes, in its transaction or committed at once. -/
def write (k : Fin n) (client : SnapshotClient S P) : SnapshotStore S P n :=
  if client.inTx then s.setClient k client else (s.setClient k client).flush k

/-- The next statement of a load. Reference: `loadAggregateWithSnapshot`. -/
def runLoad (k : Fin n) : LoadPhase S P → Option (SnapshotStore S P n)
  | .archiveCheck load =>
    if (load.tenantId, load.aggregateId) ∈ s.archived ∧ load.includeArchived = false then
      some (s.setClient k { s.clients k with phase := some (.returned load.initial 0) })
    else some (s.setClient k { s.clients k with phase := some (.latest load) })
  | .latest load =>
    some (s.setClient k { s.clients k with
      phase := some (.delta load (load.usable (loadLatestSnapshot (s.rowsOf k) load.tenantId load.aggregateId))) })
  | .delta load snapshot =>
    let stream := streamOf (s.view k) (load.tenantId, load.aggregateId)
    let (state, version) := load.result snapshot stream
    let delta := stream.drop (SnapshotLoad.afterVersion snapshot)
    match load.snapshotEvery, delta.getLast? with
    | some snapshotEvery, some lastDelta =>
      if snapshotEvery ≤ delta.length then
        some (s.setClient k { s.clients k with
          phase := some (.save ⟨load.aggregateId, load.tenantId, lastDelta.aggregateType, version, state,
            load.generationFor lastDelta.aggregateType⟩) })
      else some (s.setClient k { s.clients k with phase := some (.returned state version) })
    | _, _ => some (s.setClient k { s.clients k with phase := some (.returned state version) })
  | .save row =>
    if s.KeyHeld k row.key then none
    else some (s.write k { s.clients k with
      saves := (s.clients k).saves ++ [{ row with state := jsonb row.state }],
      phase := some (.returned row.state row.version) })
  | .returned .. => none

def step : SnapshotAct S P n → Option (SnapshotStore S P n)
  | .begin k => if (s.clients k).inTx then none else some (s.setClient k { s.clients k with inTx := true })
  | .commit k => if (s.clients k).inTx then some (s.flush k) else none
  | .rollback k =>
    if (s.clients k).inTx then some (s.setClient k ⟨false, [], [], none⟩) else none
  | .append k e =>
    if s.StreamHeld k e.stream then none
    else some (s.write k { s.clients k with events := (s.clients k).events ++ [e] })
  | .save k row =>
    if s.KeyHeld k row.key then none
    else some (s.write k { s.clients k with
      saves := (s.clients k).saves ++ [{ row with state := jsonb row.state }] })
  | .load k load =>
    match load.snapshotEvery with
    | some snapshotEvery =>
      if snapshotEvery < 1 then none
      else some (s.setClient k { s.clients k with phase := some (.archiveCheck load) })
    | none => some (s.setClient k { s.clients k with phase := some (.archiveCheck load) })
  | .run k => (s.clients k).phase.bind (s.runLoad jsonb k)
  | .skip k =>
    match (s.clients k).phase with
    | some (.save row) => some (s.setClient k { s.clients k with phase := some (.returned row.state row.version) })
    | _ => none
  | .archive stream => some { s with archived := stream :: s.archived }
  | .restore stream => some { s with archived := s.archived.filter (· ≠ stream) }

end SnapshotStore

/-! ## What snapshots promise -/

/-- What the code makes of each stream: its aggregate type, and how a generation of it folds. -/
structure AggregateCode (S P : Type*) where
  kind : String × String → String
  rehydration : String × String → ℤ → Rehydration S P

/-- The row is what its generation makes of the first events of its stream. -/
structure AggregateCode.Made (c : AggregateCode S P) (events : List (SnapshotEvent P)) (row : SnapshotRow S) :
    Prop where
  kind : row.aggregateType = c.kind (row.tenantId, row.aggregateId)
  version : row.version ≤ (streamOf events (row.tenantId, row.aggregateId)).length
  state : row.state = (c.rehydration (row.tenantId, row.aggregateId) row.snapshotVersion).fold
    ((streamOf events (row.tenantId, row.aggregateId)).take row.version)

/-- The load folds as its generation does. -/
def AggregateCode.Runs (c : AggregateCode S P) (load : SnapshotLoad S P) : Prop :=
  load.rehydration = c.rehydration (load.tenantId, load.aggregateId)
    (load.generationFor (c.kind (load.tenantId, load.aggregateId)))

namespace SnapshotStore

section
variable {n : ℕ} (jsonb : S → S) (c : AggregateCode S P) (s : SnapshotStore S P n)

/-- A row that the client sees under the key is its own tenant's. -/
def OwnKey (k : Fin n) (row : SnapshotRow S) : Prop :=
  ∀ r ∈ s.rowsOf k, r.key = row.key → r.tenantId = row.tenantId

/-- When snapshots are transparent: the events of a stream are of one type, what is saved by hand is what its
generation makes of the stream so far, a load folds as its generation does, a state that is saved is JSON, and no
save meets the row of another tenant. -/
def Promised : SnapshotAct S P n → Prop
  | .append _ e => e.aggregateType = c.kind e.stream
  | .save k row => c.Made (s.view k) row ∧ jsonb row.state = row.state ∧ s.OwnKey k row
  | .load _ load => c.Runs load
  | .run k => ∀ row, (s.clients k).phase = some (.save row) → jsonb row.state = row.state ∧ s.OwnKey k row
  | _ => True

/-- What a load has read is what the code makes of the stream. -/
def PhaseMade (events : List (SnapshotEvent P)) : LoadPhase S P → Prop
  | .archiveCheck load | .latest load => c.Runs load
  | .delta load snapshot =>
    c.Runs load ∧ ∀ row, snapshot = some row → c.Made events row ∧ row.tenantId = load.tenantId ∧
      row.aggregateId = load.aggregateId ∧ row.snapshotVersion = load.generationFor row.aggregateType
  | .save row => c.Made events row
  | .returned .. => True

/-- What every run maintains. -/
structure SnapshotInv (s : SnapshotStore S P n) : Prop where
  rows : ∀ row ∈ s.rows, c.Made s.events row
  saves : ∀ k, ∀ row ∈ (s.clients k).saves, c.Made (s.view k) row
  /-- The rows under a key are one tenant's. -/
  own : ∀ k, ∀ row ∈ (s.clients k).saves, ∀ r, r ∈ s.rows ∨ r ∈ (s.clients k).saves → r.key = row.key →
    r.tenantId = row.tenantId
  /-- Two transactions append to no stream and save no key in common. -/
  streams : ∀ k k', k ≠ k' → ∀ e ∈ (s.clients k).events, ∀ e' ∈ (s.clients k').events, e.stream ≠ e'.stream
  keys : ∀ k k', k ≠ k' → ∀ row ∈ (s.clients k).saves, ∀ row' ∈ (s.clients k').saves, row.key ≠ row'.key
  kinds : ∀ k, ∀ e ∈ s.view k, e.aggregateType = c.kind e.stream
  closed : ∀ k, (s.clients k).inTx = false → (s.clients k).events = [] ∧ (s.clients k).saves = []
  phases : ∀ k phase, (s.clients k).phase = some phase → PhaseMade c (s.view k) phase

end

/-! ## Rows -/

section
variable {n : ℕ} {c : AggregateCode S P} {s : SnapshotStore S P n} {k : Fin n} {row r save : SnapshotRow S}
  {rows saves : List (SnapshotRow S)} {events events' : List (SnapshotEvent P)}

/-- What is there after a save of the row's own tenant. -/
theorem mem_upsertSnapshot (hown : ∀ r ∈ rows, r.key = save.key → r.tenantId = save.tenantId)
    (h : r ∈ upsertSnapshot rows save) : r ∈ rows ∨ r = save := by
  unfold upsertSnapshot at h
  split at h
  · obtain ⟨old, hold, rfl⟩ := List.mem_map.1 h
    split
    · next hkey => exact .inr (by rw [hown old hold hkey])
    · exact .inl hold
  · rcases List.mem_append.1 h with h | h
    · exact .inl h
    · exact .inr (List.mem_singleton.1 h)

theorem mem_foldl_upsertSnapshot
    (hown : ∀ row ∈ saves, ∀ r, r ∈ rows ∨ r ∈ saves → r.key = row.key → r.tenantId = row.tenantId)
    (h : r ∈ saves.foldl upsertSnapshot rows) : r ∈ rows ∨ r ∈ saves := by
  induction saves generalizing rows with
  | nil => exact .inl h
  | cons save saves ih =>
    have hfirst {r : SnapshotRow S} (hr : r ∈ upsertSnapshot rows save) : r ∈ rows ∨ r = save :=
      mem_upsertSnapshot (fun r hr => hown save (.head _) r (.inl hr)) hr
    have hrest := ih (fun row hrow r hr => hown row (.tail _ hrow) r ?_) h
    · rcases hrest with hr | hr
      · rcases hfirst hr with hr | rfl
        · exact .inl hr
        · exact .inr (.head _)
      · exact .inr (.tail _ hr)
    · rcases hr with hr | hr
      · rcases hfirst hr with hr | rfl
        · exact .inl hr
        · exact .inr (.head _)
      · exact .inr (.tail _ hr)

theorem SnapshotInv.mem_rowsOf (h : SnapshotInv c s) (hr : r ∈ s.rowsOf k) :
    r ∈ s.rows ∨ r ∈ (s.clients k).saves := mem_foldl_upsertSnapshot (h.own k) hr

/-- The first events of a stream stay what they are. -/
theorem Made.of_prefix (h : c.Made events row)
    (hp : streamOf events (row.tenantId, row.aggregateId) <+: streamOf events' (row.tenantId, row.aggregateId)) :
    c.Made events' row := by
  obtain ⟨rest, hrest⟩ := hp
  refine ⟨h.kind, ?_, ?_⟩
  · rw [← hrest, List.length_append]
    exact h.version.trans (Nat.le_add_right _ _)
  · rw [← hrest, List.take_append_of_le_length h.version]
    exact h.state

theorem streamOf_append (events events' : List (SnapshotEvent P)) (stream : String × String) :
    streamOf (events ++ events') stream = streamOf events stream ++ streamOf events' stream := List.filter_append ..

theorem SnapshotInv.made_of_mem_rowsOf (h : SnapshotInv c s) (hr : r ∈ s.rowsOf k) : c.Made (s.view k) r := by
  rcases h.mem_rowsOf hr with hr | hr
  · refine Made.of_prefix (h.rows r hr) ?_
    rw [view, streamOf_append]
    exact List.prefix_append _ _
  · exact h.saves k r hr

theorem loadLatestSnapshot_mem {tenantId aggregateId : String}
    (h : loadLatestSnapshot rows tenantId aggregateId = some r) :
    r ∈ rows ∧ r.aggregateId = aggregateId ∧ r.tenantId = tenantId := by
  have hmem := List.mem_filter.1 (List.argmax_mem h)
  exact ⟨hmem.1, of_decide_eq_true hmem.2⟩

/-- A load that continues what its generation has made folds the whole stream. -/
theorem result_eq {load : SnapshotLoad S P} {snapshot : Option (SnapshotRow S)}
    (h : PhaseMade c events (.delta load snapshot)) :
    load.result snapshot (streamOf events (load.tenantId, load.aggregateId)) =
      (load.rehydration.fold (streamOf events (load.tenantId, load.aggregateId)),
        (streamOf events (load.tenantId, load.aggregateId)).length) := by
  obtain ⟨hruns, hmade⟩ := h
  generalize hstream : streamOf events (load.tenantId, load.aggregateId) = stream
  cases snapshot with
  | none =>
    refine Prod.ext rfl ?_
    show (if stream.drop 0 = [] then 0 else 0 + (stream.drop 0).length) = stream.length
    rw [List.drop_zero]
    split
    · next hempty => rw [hempty]; rfl
    · rw [Nat.zero_add]
  | some row =>
    obtain ⟨hrow, htenant, haggregate, hgeneration⟩ := hmade row rfl
    obtain ⟨hkind, hversion, hstate⟩ := hrow
    rw [htenant, haggregate, hstream] at hversion hstate
    rw [htenant, haggregate] at hkind
    rw [hgeneration, hkind] at hstate
    have hfold : row.state = load.rehydration.fold (stream.take row.version) := by rw [hstate, ← hruns]
    refine Prod.ext ?_ ?_
    · show (stream.drop row.version).foldl load.rehydration.apply row.state = load.rehydration.fold stream
      rw [hfold, Rehydration.fold, ← List.foldl_append, List.take_append_drop]
      rfl
    · show (if stream.drop row.version = [] then row.version else row.version + (stream.drop row.version).length) =
        stream.length
      rw [List.length_drop]
      split
      · next hempty =>
        have hlength := List.drop_eq_nil_iff.1 hempty
        omega
      · omega

/-- What a load has read stays so while its streams grow. -/
theorem PhaseMade.of_prefix {phase : LoadPhase S P} (h : PhaseMade c events phase)
    (hp : ∀ stream, streamOf events stream <+: streamOf events' stream) : PhaseMade c events' phase := by
  cases phase with
  | archiveCheck load | latest load => exact h
  | delta load snapshot => exact ⟨h.1, fun row hrow => ⟨Made.of_prefix (h.2 row hrow).1 (hp _), (h.2 row hrow).2⟩⟩
  | save row => exact Made.of_prefix h (hp _)
  | returned => trivial

/-- A save leaves every row under its key, with its tenant. -/
theorem exists_upsertSnapshot (h : row ∈ rows) :
    ∃ r ∈ upsertSnapshot rows save, r.key = row.key ∧ r.tenantId = row.tenantId := by
  unfold upsertSnapshot
  split
  · refine ⟨_, List.mem_map_of_mem h, ?_⟩
    split
    · next hkey => exact ⟨hkey.symm, rfl⟩
    · exact ⟨rfl, rfl⟩
  · exact ⟨row, List.mem_append_left _ h, rfl, rfl⟩

theorem exists_foldl_upsertSnapshot (h : row ∈ rows) :
    ∃ r ∈ saves.foldl upsertSnapshot rows, r.key = row.key ∧ r.tenantId = row.tenantId := by
  induction saves generalizing rows row with
  | nil => exact ⟨row, h, rfl, rfl⟩
  | cons save saves ih =>
    obtain ⟨r, hr, hkey, htenant⟩ := exists_upsertSnapshot h
    obtain ⟨r', hr', hkey', htenant'⟩ := ih hr
    exact ⟨r', hr', hkey'.trans hkey, htenant'.trans htenant⟩

/-- A row that has been saved has left one with its key. -/
theorem exists_key_upsertSnapshot : ∃ r ∈ upsertSnapshot rows save, r.key = save.key := by
  unfold upsertSnapshot
  split
  · next hany =>
    obtain ⟨old, hold, hkey⟩ := List.any_eq_true.1 hany
    refine ⟨_, List.mem_map_of_mem hold, ?_⟩
    rw [if_pos (of_decide_eq_true hkey)]
    rfl
  · exact ⟨save, List.mem_append_right _ (.head _), rfl⟩

theorem exists_key_foldl (h : row ∈ saves) : ∃ r ∈ saves.foldl upsertSnapshot rows, r.key = row.key := by
  induction saves generalizing rows with
  | nil => exact absurd h List.not_mem_nil
  | cons save saves ih =>
    rcases List.mem_cons.1 h with rfl | h
    · obtain ⟨r, hr, hkey⟩ := exists_key_upsertSnapshot
      obtain ⟨r', hr', hkey', -⟩ := exists_foldl_upsertSnapshot hr
      exact ⟨r', hr', hkey'.trans hkey⟩
    · exact ih h

end

/-! ## Steps -/

section
variable {n : ℕ} {c : AggregateCode S P} {s s' : SnapshotStore S P n} {k : Fin n} {client : SnapshotClient S P}

theorem setClient_self : (s.setClient k client).clients k = client := Function.update_self ..

theorem setClient_of_ne {k' : Fin n} (h : k' ≠ k) : (s.setClient k client).clients k' = s.clients k' :=
  Function.update_of_ne h ..

theorem view_setClient_of_ne {k' : Fin n} (h : k' ≠ k) : (s.setClient k client).view k' = s.view k' := by
  rw [view, setClient_of_ne h]
  rfl

theorem view_setClient_self : (s.setClient k client).view k = s.events ++ client.events := by
  rw [view, setClient_self]
  rfl

/-- A client writes at the end of what it has written. -/
theorem SnapshotInv.put (h : SnapshotInv c s) (hopen : client.inTx = false → client.events = [] ∧ client.saves = [])
    (hkinds : ∀ e ∈ client.events, e.aggregateType = c.kind e.stream)
    (hstreams : ∀ e ∈ client.events, ∀ k', k' ≠ k → ∀ e' ∈ (s.clients k').events, e.stream ≠ e'.stream)
    (hkeys : ∀ row ∈ client.saves, ∀ k', k' ≠ k → ∀ row' ∈ (s.clients k').saves, row.key ≠ row'.key)
    (hsaves : ∀ row ∈ client.saves, c.Made (s.events ++ client.events) row)
    (hown : ∀ row ∈ client.saves, ∀ r, r ∈ s.rows ∨ r ∈ client.saves → r.key = row.key → r.tenantId = row.tenantId)
    (hphase : ∀ phase, client.phase = some phase → PhaseMade c (s.events ++ client.events) phase) :
    SnapshotInv c (s.setClient k client) := by
  refine ⟨h.rows, fun k' => ?_, fun k' => ?_, fun k' k'' hne => ?_, fun k' k'' hne => ?_, fun k' => ?_, fun k' => ?_,
    fun k' => ?_⟩
  · rcases eq_or_ne k' k with rfl | hk
    · rw [setClient_self, view_setClient_self]
      exact hsaves
    · rw [setClient_of_ne hk, view_setClient_of_ne hk]
      exact h.saves k'
  · rcases eq_or_ne k' k with rfl | hk
    · rw [setClient_self]
      exact hown
    · rw [setClient_of_ne hk]
      exact h.own k'
  · rcases eq_or_ne k' k with rfl | hk
    · rw [setClient_self, setClient_of_ne hne.symm]
      exact fun e he => hstreams e he k'' hne.symm
    · rw [setClient_of_ne hk]
      rcases eq_or_ne k'' k with rfl | hk'
      · rw [setClient_self]
        exact fun e he e' he' => (hstreams e' he' k' hk e he).symm
      · rw [setClient_of_ne hk']
        exact h.streams k' k'' hne
  · rcases eq_or_ne k' k with rfl | hk
    · rw [setClient_self, setClient_of_ne hne.symm]
      exact fun row hrow => hkeys row hrow k'' hne.symm
    · rw [setClient_of_ne hk]
      rcases eq_or_ne k'' k with rfl | hk'
      · rw [setClient_self]
        exact fun row hrow row' hrow' => (hkeys row' hrow' k' hk row hrow).symm
      · rw [setClient_of_ne hk']
        exact h.keys k' k'' hne
  · rcases eq_or_ne k' k with rfl | hk
    · rw [view_setClient_self]
      intro e he
      rcases List.mem_append.1 he with he | he
      · exact h.kinds k' e (List.mem_append_left _ he)
      · exact hkinds e he
    · rw [view_setClient_of_ne hk]
      exact h.kinds k'
  · rcases eq_or_ne k' k with rfl | hk
    · rw [setClient_self]
      exact hopen
    · rw [setClient_of_ne hk]
      exact h.closed k'
  · rcases eq_or_ne k' k with rfl | hk
    · rw [setClient_self, view_setClient_self]
      exact hphase
    · rw [setClient_of_ne hk, view_setClient_of_ne hk]
      exact h.phases k'

/-- A load goes on without a write. -/
theorem SnapshotInv.goTo (h : SnapshotInv c s) {phase : Option (LoadPhase S P)} {inTx : Bool}
    (hopen : inTx = false → (s.clients k).inTx = false)
    (hphase : ∀ phase', phase = some phase' → PhaseMade c (s.view k) phase') :
    SnapshotInv c (s.setClient k { s.clients k with inTx, phase }) :=
  h.put (fun hout => h.closed k (hopen hout)) (fun e he => h.kinds k e (List.mem_append_right _ he))
    (fun e he k' hk e' he' => h.streams k k' hk.symm e he e' he')
    (fun row hrow k' hk row' hrow' => h.keys k k' hk.symm row hrow row' hrow') (h.saves k) (h.own k) hphase

/-- Appends of one transaction keep the beginning of every stream that another one sees. -/
theorem SnapshotInv.view_prefix (h : SnapshotInv c s) {k' : Fin n} (hne : k' ≠ k) (stream : String × String) :
    streamOf (s.view k') stream <+: streamOf (s.view k ++ (s.clients k').events) stream := by
  rw [view, view, streamOf_append, streamOf_append, streamOf_append]
  cases hmine : streamOf (s.clients k).events stream with
  | nil =>
    simp only [List.append_nil, List.prefix_rfl]
  | cons e rest =>
    have hnone : streamOf (s.clients k').events stream = [] := by
      refine List.filter_eq_nil_iff.2 fun e' he' hstream => ?_
      obtain ⟨hmem, hsame⟩ := List.mem_filter.1 (hmine ▸ List.mem_cons_self : e ∈ streamOf (s.clients k).events stream)
      exact h.streams k k' hne.symm e hmem e' he' ((of_decide_eq_true hsame).trans (of_decide_eq_true hstream).symm)
    rw [hnone, List.append_nil, List.append_nil]
    exact List.prefix_append _ _

/-- A transaction commits. -/
theorem SnapshotInv.flush (h : SnapshotInv c s) : SnapshotInv c (s.flush k) := by
  have hview {k' : Fin n} (hne : k' ≠ k) : (s.flush k).view k' = s.view k ++ (s.clients k').events := by
    show s.view k ++ ((s.setClient k _).clients k').events = _
    rw [setClient_of_ne hne]
  have hself : (s.flush k).view k = s.view k := by
    show s.view k ++ ((s.setClient k _).clients k).events = _
    rw [setClient_self]
    exact List.append_nil _
  have hclient {k' : Fin n} (hne : k' ≠ k) : (s.flush k).clients k' = s.clients k' := setClient_of_ne hne
  have hclosed : (s.flush k).clients k = ⟨false, [], [], (s.clients k).phase⟩ := setClient_self
  refine ⟨fun row hrow => h.made_of_mem_rowsOf hrow, fun k' => ?_, fun k' => ?_, fun k' k'' hne => ?_,
    fun k' k'' hne => ?_, fun k' => ?_, fun k' => ?_, fun k' => ?_⟩
  · rcases eq_or_ne k' k with rfl | hk
    · rw [hclosed]
      exact fun _ hrow => nomatch hrow
    · rw [hclient hk, hview hk]
      exact fun row hrow => Made.of_prefix (h.saves k' row hrow) (h.view_prefix hk _)
  · rcases eq_or_ne k' k with rfl | hk
    · rw [hclosed]
      exact fun _ hrow => nomatch hrow
    · rw [hclient hk]
      intro row hrow r hr hkey
      obtain hr | hr := hr
      · rcases h.mem_rowsOf hr with hr | hr
        · exact h.own k' row hrow r (.inl hr) hkey
        · exact absurd hkey (h.keys k k' hk.symm r hr row hrow)
      · exact h.own k' row hrow r (.inr hr) hkey
  · rcases eq_or_ne k' k with rfl | hk
    · rw [hclosed]
      exact fun _ he => nomatch he
    · rw [hclient hk]
      rcases eq_or_ne k'' k with rfl | hk'
      · rw [hclosed]
        exact fun _ _ _ he => nomatch he
      · rw [hclient hk']
        exact h.streams k' k'' hne
  · rcases eq_or_ne k' k with rfl | hk
    · rw [hclosed]
      exact fun _ hrow => nomatch hrow
    · rw [hclient hk]
      rcases eq_or_ne k'' k with rfl | hk'
      · rw [hclosed]
        exact fun _ _ _ hrow => nomatch hrow
      · rw [hclient hk']
        exact h.keys k' k'' hne
  · rcases eq_or_ne k' k with rfl | hk
    · rw [hself]
      exact h.kinds k'
    · rw [hview hk]
      intro e he
      rcases List.mem_append.1 he with he | he
      · exact h.kinds k e he
      · exact h.kinds k' e (List.mem_append_right _ he)
  · rcases eq_or_ne k' k with rfl | hk
    · rw [hclosed]
      exact fun _ => ⟨rfl, rfl⟩
    · rw [hclient hk]
      exact h.closed k'
  · rcases eq_or_ne k' k with rfl | hk
    · rw [hclosed, hself]
      exact h.phases k'
    · rw [hclient hk, hview hk]
      exact fun phase hphase => PhaseMade.of_prefix (h.phases k' phase hphase) (h.view_prefix hk)

/-- A commit does not ask whether the transaction is the client's or the statement's own. -/
theorem flush_setClient {inTx : Bool} :
    (s.setClient k { client with inTx }).flush k = (s.setClient k client).flush k := by
  simp only [SnapshotStore.flush, view, rowsOf, setClient, Function.update_idem, Function.update_self]

theorem SnapshotInv.write (h : SnapshotInv c (s.setClient k { client with inTx := true })) :
    SnapshotInv c (s.write k client) := by
  unfold SnapshotStore.write
  split
  · next hin => rwa [← hin] at h
  · rw [← flush_setClient]
    exact h.flush

/-- An event is appended to a stream that no other transaction holds. -/
theorem SnapshotInv.append (h : SnapshotInv c s) {e : SnapshotEvent P} (hfree : ¬s.StreamHeld k e.stream)
    (hkind : e.aggregateType = c.kind e.stream) :
    SnapshotInv c (s.write k { s.clients k with events := (s.clients k).events ++ [e] }) := by
  have hgrows (stream : String × String) :
      streamOf (s.view k) stream <+: streamOf (s.events ++ ((s.clients k).events ++ [e])) stream := by
    rw [← List.append_assoc, streamOf_append]
    exact List.prefix_append _ _
  refine SnapshotInv.write (h.put nofun (fun e' he' => ?_) (fun e' he' k' hk e'' he'' => ?_)
    (fun row hrow k' hk row' hrow' => h.keys k k' hk.symm row hrow row' hrow')
    (fun row hrow => Made.of_prefix (h.saves k row hrow) (hgrows _)) (h.own k)
    fun phase hphase => PhaseMade.of_prefix (h.phases k phase hphase) hgrows)
  · rcases List.mem_append.1 he' with he' | he'
    · exact h.kinds k e' (List.mem_append_right _ he')
    · rw [List.mem_singleton.1 he']
      exact hkind
  · rcases List.mem_append.1 he' with he' | he'
    · exact h.streams k k' hk.symm e' he' e'' he''
    · rw [List.mem_singleton.1 he']
      exact fun hsame => hfree ⟨k', hk, e'', he'', hsame.symm⟩

/-- A row is saved under a key that no other transaction holds, where a row under the key is its own tenant's. -/
theorem SnapshotInv.save (h : SnapshotInv c s) {row : SnapshotRow S} {phase : Option (LoadPhase S P)}
    (hfree : ¬s.KeyHeld k row.key) (hmade : c.Made (s.view k) row) (hown : s.OwnKey k row)
    (hphase : ∀ phase', phase = some phase' → PhaseMade c (s.view k) phase') :
    SnapshotInv c (s.write k { s.clients k with saves := (s.clients k).saves ++ [row], phase }) := by
  have hsaved {r : SnapshotRow S} (hr : r ∈ (s.clients k).saves) (hkey : r.key = row.key) :
      r.tenantId = row.tenantId := by
    obtain ⟨r', hr', hkey'⟩ := exists_key_foldl hr
    rw [← hown r' hr' (hkey'.trans hkey)]
    exact (h.own k r hr r' (h.mem_rowsOf hr') hkey').symm
  have hthere {r : SnapshotRow S} (hr : r ∈ s.rows) (hkey : r.key = row.key) : r.tenantId = row.tenantId := by
    obtain ⟨r', hr', hkey', htenant⟩ := exists_foldl_upsertSnapshot hr
    rw [← htenant]
    exact hown r' hr' (hkey'.trans hkey)
  refine SnapshotInv.write (h.put nofun (fun e he => h.kinds k e (List.mem_append_right _ he))
    (fun e he k' hk e' he' => h.streams k k' hk.symm e he e' he') (fun r hr k' hk r' hr' => ?_) (fun r hr => ?_)
    (fun r hr r' hr' hkey => ?_) hphase)
  · rcases List.mem_append.1 hr with hr | hr
    · exact h.keys k k' hk.symm r hr r' hr'
    · rw [List.mem_singleton.1 hr]
      exact fun hsame => hfree ⟨k', hk, r', hr', hsame.symm⟩
  · rcases List.mem_append.1 hr with hr | hr
    · exact h.saves k r hr
    · rw [List.mem_singleton.1 hr]
      exact hmade
  · rcases List.mem_append.1 hr with hr | hr
    · rcases hr' with hr' | hr'
      · exact h.own k r hr r' (.inl hr') hkey
      · rcases List.mem_append.1 hr' with hr' | hr'
        · exact h.own k r hr r' (.inr hr') hkey
        · rw [List.mem_singleton.1 hr'] at hkey ⊢
          exact (hsaved hr hkey.symm).symm
    · rw [List.mem_singleton.1 hr] at hkey ⊢
      rcases hr' with hr' | hr'
      · exact hthere hr' hkey
      · rcases List.mem_append.1 hr' with hr' | hr'
        · exact hsaved hr' hkey
        · rw [List.mem_singleton.1 hr']

variable {jsonb : S → S} {load : SnapshotLoad S P} {snapshot : Option (SnapshotRow S)}

/-- What a load does after it has read the events. -/
theorem of_runLoad_delta (h : s.runLoad jsonb k (.delta load snapshot) = some s') :
    ∃ phase, s' = s.setClient k { s.clients k with phase := some phase } ∧
      phase.answer = some (load.result snapshot (streamOf (s.view k) (load.tenantId, load.aggregateId))) ∧
      ∀ row, phase = .save row → ∃ lastDelta ∈ streamOf (s.view k) (load.tenantId, load.aggregateId),
        row.aggregateId = load.aggregateId ∧ row.tenantId = load.tenantId ∧
          row.aggregateType = lastDelta.aggregateType ∧
          row.snapshotVersion = load.generationFor lastDelta.aggregateType := by
  simp only [runLoad] at h
  split at h
  · next hlast =>
    split at h
    · cases h
      refine ⟨_, rfl, rfl, fun row hrow => ?_⟩
      cases hrow
      exact ⟨_, List.mem_of_mem_drop (List.mem_of_getLast? hlast), rfl, rfl, rfl, rfl⟩
    · cases h
      exact ⟨_, rfl, rfl, fun row hrow => nomatch hrow⟩
  · cases h
    exact ⟨_, rfl, rfl, fun row hrow => nomatch hrow⟩

/-- What a load saves is what its generation makes of the stream. -/
theorem SnapshotInv.made_of_answer (h : SnapshotInv c s) {row : SnapshotRow S} {lastDelta : SnapshotEvent P}
    (hphase : PhaseMade c (s.view k) (.delta load snapshot))
    (hanswer : LoadPhase.answer (P := P) (.save row) =
      some (load.result snapshot (streamOf (s.view k) (load.tenantId, load.aggregateId))))
    (hlast : lastDelta ∈ streamOf (s.view k) (load.tenantId, load.aggregateId))
    (haggregate : row.aggregateId = load.aggregateId) (htenant : row.tenantId = load.tenantId)
    (htype : row.aggregateType = lastDelta.aggregateType)
    (hgeneration : row.snapshotVersion = load.generationFor lastDelta.aggregateType) :
    c.Made (s.view k) row := by
  have hresult := (Option.some.inj hanswer).trans (result_eq hphase)
  obtain ⟨hstate, hversion⟩ := Prod.ext_iff.1 hresult
  have hkind : lastDelta.aggregateType = c.kind (load.tenantId, load.aggregateId) := by
    obtain ⟨hmem, hstream⟩ := List.mem_filter.1 hlast
    rw [h.kinds k lastDelta hmem, of_decide_eq_true hstream]
  refine ⟨?_, ?_, ?_⟩
  · rw [htype, hkind, htenant, haggregate]
  · rw [htenant, haggregate]
    exact hversion.le
  · rw [htenant, haggregate, hgeneration, hkind, ← hphase.1]
    rw [show row.version = _ from hversion, List.take_length]
    exact hstate

theorem SnapshotInv.runLoad {phase : LoadPhase S P} (h : SnapshotInv c s)
    (hphase : (s.clients k).phase = some phase) (hok : Promised jsonb c s (.run k))
    (hstep : s.runLoad jsonb k phase = some s') : SnapshotInv c s' := by
  have hmade := h.phases k phase hphase
  cases phase with
  | archiveCheck load =>
    simp only [SnapshotStore.runLoad] at hstep
    split at hstep
    · cases hstep
      refine h.goTo id fun phase' hphase' => ?_
      cases hphase'
      trivial
    · cases hstep
      refine h.goTo id fun phase' hphase' => ?_
      cases hphase'
      exact hmade
  | latest load =>
    cases hstep
    refine h.goTo id fun phase' hphase' => ?_
    cases hphase'
    refine ⟨hmade, fun row hrow => ?_⟩
    obtain ⟨hstored, hgeneration⟩ := Option.filter_eq_some_iff.1 hrow
    obtain ⟨hmem, haggregate, htenant⟩ := loadLatestSnapshot_mem hstored
    exact ⟨h.made_of_mem_rowsOf hmem, htenant, haggregate, of_decide_eq_true hgeneration⟩
  | delta load snapshot =>
    obtain ⟨phase', rfl, hanswer, hsave⟩ := of_runLoad_delta hstep
    refine h.goTo id fun phase'' hphase'' => ?_
    cases hphase''
    cases phase' with
    | save row =>
      obtain ⟨lastDelta, hlast, haggregate, htenant, htype, hgeneration⟩ := hsave row rfl
      exact h.made_of_answer hmade hanswer hlast haggregate htenant htype hgeneration
    | returned state version => trivial
    | archiveCheck load' | latest load' | delta load' snapshot' => exact nomatch hanswer
  | save row =>
    obtain ⟨hjson, hown⟩ := hok row hphase
    simp only [SnapshotStore.runLoad, hjson] at hstep
    split at hstep
    · cases hstep
    · next hfree =>
      cases hstep
      refine h.save hfree hmade hown fun phase' hphase' => ?_
      cases hphase'
      trivial
  | returned state version => cases hstep

/-- A step keeps the invariant. -/
theorem SnapshotInv.step {a : SnapshotAct S P n} (h : SnapshotInv c s) (hok : Promised jsonb c s a)
    (hs : s.step jsonb a = some s') : SnapshotInv c s' := by
  cases a with
  | begin k =>
    simp only [SnapshotStore.step] at hs
    split at hs
    · cases hs
    · cases hs
      exact h.goTo nofun (h.phases k)
  | commit k =>
    simp only [SnapshotStore.step] at hs
    split at hs
    · cases hs
      exact h.flush
    · cases hs
  | rollback k =>
    simp only [SnapshotStore.step] at hs
    split at hs
    · cases hs
      exact h.put (fun _ => ⟨rfl, rfl⟩) nofun nofun nofun nofun nofun nofun
    · cases hs
  | append k e =>
    simp only [SnapshotStore.step] at hs
    split at hs
    · cases hs
    · next hfree =>
      cases hs
      exact h.append hfree hok
  | save k row =>
    obtain ⟨hmade, hjson, hown⟩ := hok
    simp only [SnapshotStore.step, hjson] at hs
    split at hs
    · cases hs
    · next hfree =>
      cases hs
      exact h.save hfree hmade hown (h.phases k)
  | load k load =>
    have hgo : SnapshotInv c (s.setClient k { s.clients k with phase := some (.archiveCheck load) }) := by
      refine h.goTo id fun phase hphase => ?_
      cases hphase
      exact hok
    simp only [SnapshotStore.step] at hs
    split at hs
    · split at hs
      · cases hs
      · cases hs
        exact hgo
    · cases hs
      exact hgo
  | run k =>
    obtain ⟨phase, hphase, hrun⟩ := Option.bind_eq_some_iff.1 hs
    exact h.runLoad hphase hok hrun
  | skip k =>
    simp only [SnapshotStore.step] at hs
    split at hs
    · cases hs
      refine h.goTo id fun phase hphase => ?_
      cases hphase
      trivial
    · cases hs
  | archive stream | restore stream =>
    cases hs
    exact ⟨h.rows, h.saves, h.own, h.streams, h.keys, h.kinds, h.closed, h.phases⟩

theorem snapshotInv_initial : SnapshotInv c (.initial : SnapshotStore S P n) :=
  ⟨nofun, nofun, nofun, nofun, nofun, nofun, fun _ _ => ⟨rfl, rfl⟩, nofun⟩

end

/-- A load returns the state and the version of its whole stream: what it makes after it has read the events, and
nothing where its stream was archived when it asked. -/
theorem snapshot_transparent_of_run {n : ℕ} (jsonb : S → S) (c : AggregateCode S P) (s s' : SnapshotStore S P n)
    (k : Fin n) (phase : LoadPhase S P) (load : SnapshotLoad S P) (answer : S × ℕ)
    (hr : Run (step jsonb) (Promised jsonb c) .initial s) (hphase : (s.clients k).phase = some phase)
    (hs : s.step jsonb (.run k) = some s') (hanswer : (s'.clients k).phase.bind (·.answer) = some answer) :
    (∀ snapshot, phase = .delta load snapshot →
      answer = (load.rehydration.fold (streamOf (s.view k) (load.tenantId, load.aggregateId)),
        (streamOf (s.view k) (load.tenantId, load.aggregateId)).length)) ∧
      (phase = .archiveCheck load → (load.tenantId, load.aggregateId) ∈ s.archived ∧ load.includeArchived = false ∧
        answer = (load.rehydration.fold [], 0)) := by
  have h := hr.invariant snapshotInv_initial fun _ _ _ h hok hs => h.step hok hs
  obtain ⟨phase', hphase', hrun⟩ := Option.bind_eq_some_iff.1 hs
  obtain rfl : phase' = phase := Option.some.inj (hphase'.symm.trans hphase)
  refine ⟨?_, ?_⟩
  · rintro snapshot rfl
    obtain ⟨phase', rfl, hmade, -⟩ := of_runLoad_delta hrun
    rw [setClient_self] at hanswer
    rw [← result_eq (h.phases k _ hphase)]
    exact Option.some.inj (hanswer.symm.trans hmade)
  · rintro rfl
    simp only [runLoad] at hrun
    split at hrun
    · next harchived =>
      cases hrun
      rw [setClient_self] at hanswer
      exact ⟨harchived.1, harchived.2, (Option.some.inj hanswer).symm⟩
    · cases hrun
      rw [setClient_self] at hanswer
      cases hanswer

/-! ## A tenant's snapshot, and two tenants with one aggregate id -/

/-- A load that lists the payloads and saves a snapshot after every event. -/
def listPayloads (tenantId : String) : SnapshotLoad (List ℕ) ℕ where
  aggregateId := "a"
  tenantId
  reducer state event := state ++ [event.payload]
  initial := []
  includeArchived := false
  snapshotVersion := none
  snapshotEvery := some 1
  entityEventVersionOf _ := none
  upcastEvent := id

/-- Every generation lists the payloads. -/
def listCode : AggregateCode (List ℕ) ℕ where
  kind _ := "order"
  rehydration _ _ := (listPayloads "").rehydration

def appendPayload (tenantId : String) (payload : ℕ) : SnapshotAct (List ℕ) ℕ 1 :=
  .append 0 ⟨tenantId, "a", "order", payload⟩

def loadPayloads (tenantId : String) : SnapshotAct (List ℕ) ℕ 1 := .load 0 (listPayloads tenantId)

def nextStatement : SnapshotAct (List ℕ) ℕ 1 := .run 0

/-- The load of the tenant whose snapshot another tenant's load has replaced. -/
def reusedIdRun : List (SnapshotAct (List ℕ) ℕ 1) :=
  [appendPayload "t1" 1, appendPayload "t2" 2,
    loadPayloads "t1", nextStatement, nextStatement, nextStatement, nextStatement,
    loadPayloads "t2", nextStatement, nextStatement, nextStatement, nextStatement,
    loadPayloads "t1", nextStatement, nextStatement]

theorem snapshot_transparent_of_run_listPayloads :
    ∃ s s' : SnapshotStore (List ℕ) ℕ 1, ∃ row, Run (step id) (Promised id listCode) .initial s ∧
      (s.clients 0).phase = some (.delta (listPayloads "t1") (some row)) ∧ s.step id (.run 0) = some s' ∧
      (s'.clients 0).phase.bind (·.answer) = some ([1, 2], 2) ∧
      ([1, 2], 2) = ((listPayloads "t1").rehydration.fold (streamOf (s.view 0) ("t1", "a")),
        (streamOf (s.view 0) ("t1", "a")).length) := by
  -- An event, a load that saves a snapshot of it, another event, and a load that continues from the snapshot.
  have happended : Run (step id) (Promised id listCode) (.initial : SnapshotStore (List ℕ) ℕ 1) _ :=
    .next (a := appendPayload "t1" 1) .start rfl rfl
  have hloads := happended.next (a := loadPayloads "t1") rfl rfl
  have hchecked := hloads.next (a := nextStatement) (fun _ h => nomatch h) rfl
  have hlatest := hchecked.next (a := nextStatement) (fun _ h => nomatch h) rfl
  have hdelta := hlatest.next (a := nextStatement) (fun _ h => nomatch h) rfl
  have hsaved := hdelta.next (a := nextStatement) (fun _ _ => ⟨rfl, fun _ hr => nomatch hr⟩) rfl
  have happended' := hsaved.next (a := appendPayload "t1" 2) rfl rfl
  have hloads' := happended'.next (a := loadPayloads "t1") rfl rfl
  have hchecked' := hloads'.next (a := nextStatement) (fun _ h => nomatch h) rfl
  have hrun := hchecked'.next (a := nextStatement) (fun _ h => nomatch h) rfl
  refine ⟨_, _, _, hrun, rfl, rfl, rfl, ?_⟩
  exact (snapshot_transparent_of_run id listCode _ _ 0 _ (listPayloads "t1") ([1, 2], 2) hrun rfl rfl rfl).1 _ rfl

theorem reused_id_leaks :
    ∃ s s' : SnapshotStore (List ℕ) ℕ 1, ∃ row, Run (step id) (fun _ _ => True) .initial s ∧
      (s.clients 0).phase = some (.delta (listPayloads "t1") (some row)) ∧ s.step id (.run 0) = some s' ∧
      (s'.clients 0).phase.bind (·.answer) = some ([2], 1) ∧
      (listPayloads "t1").rehydration.fold (streamOf (s.view 0) ("t1", "a")) = [1] :=
  ⟨_, _, _, Run.of_exec (show exec (step id) .initial reusedIdRun = some _ from rfl), rfl, rfl, rfl, rfl⟩

end SnapshotStore

end Kumiko
