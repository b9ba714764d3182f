import Kumiko.Pipeline.MspRebuild
import Kumiko.Pipeline.StartFromNow

/-!
# The hand-off of a rebuilt projection

Rebuilds of multi-stream projections among the steps of the consumer table. A rebuild is one transaction that
holds the lock on its consumer's row, so no turn runs until it has committed. After it every subscribed event is
applied once (`HandedOff`, `handed_off_of_run`), on the conditions of `HandOffOk`: the holes below the horizon
are not scanned when the snapshot lists no running transaction (`not_handed_off`).
-/

namespace Kumiko

open Span Transition

/-- Reference: `SHARED_INSTANCE_SENTINEL` (`pipeline/event-consumer-state.ts`). -/
def sharedInstanceSentinel : String := "__shared__"

/-- The consumer of a projection. -/
def mspKey (mspName : String) : ConsumerKey := ⟨mspName, sharedInstanceSentinel⟩

/-- How far a rebuild has come. -/
inductive RebuildPhase
  | idle
  /-- The row is reset and locked. -/
  | started
  /-- The seed has been read. -/
  | seeded (seed : EventIdHorizon)
  /-- The events have been replayed; `settled` are the ids the replay settles. -/
  | replayed (seed : EventIdHorizon) (r : Replay) (settled : List ℕ)
  /-- The row has been written, not yet committed. -/
  | finished (row : ConsumerStateRow) (replayedIds settled : List ℕ)

/-- There is a rebuild. -/
def RebuildPhase.active : RebuildPhase → Bool
  | idle => false
  | _ => true

/-- The consumer table, the rebuilds in progress, and for every projection the ids that its last
rebuild replayed. -/
structure Projections where
  table : Consumers
  rebuilds : String → RebuildPhase
  replayed : String → Option (List ℕ)

/-- The steps of the parties. -/
inductive ProjectionsAct
  /-- A step of the consumer table. -/
  | table (a : ConsumersAct)
  /-- The consumer's row is reset and locked. -/
  | start (mspName : String)
  /-- The seed is read, where `top` has the highest cursor of the other consumers, if it is one of
  them. -/
  | readSeed (mspName : String) (top : Option ConsumerKey)
  /-- The events are replayed; the applies answer. -/
  | replay (mspName : String) (answer : EventRow → Option HandlerError)
  /-- The bounds are read and the row is written. -/
  | readXmax (mspName : String)
  | commit (mspName : String)
  | abort (mspName : String)
  /-- A failed rebuild is recorded. Reference: `markConsumerRebuildFailed`. -/
  | markFailed (mspName errorMessage : String)

/-- The consumer whose row a step locks or inserts. -/
def touchedKey (w : Consumers) : ConsumersAct → Option ConsumerKey
  | .turn key _ | .setStatus key _ | .register key => some key
  | .insert r =>
    match w.registrations r with
    | .seeded key _ _ _ => some key
    | _ => none
  | .writer _ | .check _ _ | .readSeed _ _ | .prune _ _ => none

namespace Projections

/-- An empty log, no consumer, no rebuild. -/
def start : Projections :=
  { table := .start, rebuilds := fun _ => .idle, replayed := fun _ => none }

/-- The consumer's row is locked by a rebuild. -/
def rebuilding (w : Projections) (key : ConsumerKey) : Bool :=
  key.instanceId == sharedInstanceSentinel && (w.rebuilds key.name).active

/-- The slot of a projection's consumer. -/
def slot (w : Projections) (mspName : String) : ConsumerSlot :=
  (w.table.consumer (mspKey mspName)).slot

/-- The row has the highest cursor in the rebuild's transaction, where the projection's own row has
been reset. -/
def IsTop (w : Projections) (mspName : String) (top : Option ConsumerKey) : Prop :=
  (∀ key, top = some key → key ∈ w.table.keys ∧ key ≠ mspKey mspName) ∧
  ∀ key ∈ w.table.keys, key ≠ mspKey mspName →
    (w.table.row key).lastProcessedEventId ≤ scanBound (top.map w.table.row)

instance (w : Projections) (mspName : String) (top : Option ConsumerKey) :
    Decidable (w.IsTop mspName top) :=
  decidable_of_iff ((∀ key ∈ top, key ∈ w.table.keys ∧ key ≠ mspKey mspName) ∧ ∀ key ∈ w.table.keys,
    key ≠ mspKey mspName → (w.table.row key).lastProcessedEventId ≤ scanBound (top.map w.table.row)) Iff.rfl

/-- A rebuild goes on to a phase. -/
def setRebuild (w : Projections) (table : Consumers) (mspName : String) (p : RebuildPhase) :
    Projections :=
  { w with table, rebuilds := Function.update w.rebuilds mspName p }

/-- The slot of a projection's consumer changes, and the log with it. -/
def setSlot (w : Projections) (log : Log) (mspName : String) (slot : ConsumerSlot) : Consumers :=
  w.table.setSlot log (mspKey mspName) slot

end Projections

/-- A rebuild commits: the consumer starts anew from the row it wrote. -/
def Consumers.handOver (w : Consumers) (log : Log) (key : ConsumerKey) (row : ConsumerStateRow)
    (settled : List ℕ) : Consumers :=
  { w with
    log
    keys := if key ∈ w.keys then w.keys else key :: w.keys
    consumer := Function.update w.consumer key
      { slot := { row, turn := none, calls := [], resolved := [], burnt := [] }
        seen := settled, skipped := settled } }

theorem Projections.setSlot_self {w : Projections} {log : Log} {mspName : String}
    {slot : ConsumerSlot} : (w.setSlot log mspName slot).consumer (mspKey mspName) =
      { w.table.consumer (mspKey mspName) with slot } := Function.update_self ..

section
variable {w : Consumers} {log : Log} {key key' : ConsumerKey} {row : ConsumerStateRow}
  {settled : List ℕ}

theorem Consumers.handOver_self : (w.handOver log key row settled).consumer key =
    { slot := { row, turn := none, calls := [], resolved := [], burnt := [] }
      seen := settled, skipped := settled } := Function.update_self ..

theorem Consumers.handOver_of_ne (h : key' ≠ key) :
    (w.handOver log key row settled).consumer key' = w.consumer key' := Function.update_of_ne h ..

theorem Consumers.mem_handOver : key ∈ (w.handOver log key row settled).keys := by
  unfold handOver
  split
  · assumption
  · exact .head _

theorem Consumers.mem_handOver_of_mem (h : key' ∈ w.keys) :
    key' ∈ (w.handOver log key row settled).keys := by
  unfold handOver
  split
  · exact h
  · exact .tail _ h

end

/-- Reference: `markConsumerRebuildFailed` (`db/queries/event-consumer.ts`). -/
def ConsumerStateRow.rebuildFailed (row : ConsumerStateRow) (errorMessage : String) :
    ConsumerStateRow :=
  { row with status := .dead, lastError := some errorMessage }

/-- One step of the system, for the projections `msps` that have a table. Reference:
`replayMultiStreamProjectionIntoShadow`. -/
def projectionsStep (registry : String → EventConsumer) (opts : DispatcherOptions)
    (msps : String → Option MultiStreamProjectionDefinition) (w : Projections) :
    ProjectionsAct → Option Projections
  | .table a =>
    if (touchedKey w.table a).any w.rebuilding then none
    else (consumersStep registry opts w.table a).map fun table => { w with table }
  | .start mspName =>
    match msps mspName, w.rebuilds mspName with
    | some _, .idle =>
      if (w.slot mspName).turn.isNone ∧ w.table.shareLocks = [] then
        let turn := some ⟨w.table.log.xacts.nextXid, (w.slot mspName).row, .skipped⟩
        let table := w.setSlot w.table.log.claim mspName { w.slot mspName with turn }
        some (w.setRebuild table mspName .started)
      else none
    | _, _ => none
  | .readSeed mspName top =>
    match w.rebuilds mspName with
    | .started =>
      if w.IsTop mspName top then
        some (w.setRebuild w.table mspName (.seeded
          (selectEventIdHorizonWithMissingRanges w.table.log
            ((w.slot mspName).turn.map (·.xid)) (top.map w.table.row))))
      else none
    | _ => none
  | .replay mspName answer =>
    match msps mspName, w.rebuilds mspName with
    | some msp, .seeded seed =>
      let log := w.table.log
      match replayEvents msp.skipApplyErrors answer .start
          (selectReplayEvents log.visibleRows msp.subscribedTypes seed.horizon) with
      | .ok r =>
        some (w.setRebuild w.table mspName (.replayed seed r (settledByReplay log seed.gaps r)))
      | .error _ => none
    | _, _ => none
  | .readXmax mspName =>
    match w.rebuilds mspName with
    | .replayed seed r settled =>
      let capped := cappedGaps seed.gaps r
      let pendingGaps := mergeContiguousGapRanges (withBound w.table.log.xacts.xmax capped)
      some (w.setRebuild w.table mspName (.finished
        ((w.slot mspName).row.rebuilt r.lastProcessedEventId pendingGaps) r.replayedIds settled))
    | _ => none
  | .commit mspName =>
    match w.rebuilds mspName, (w.slot mspName).turn with
    | .finished row replayedIds settled, some t =>
      let table := w.table.handOver (w.table.log.commit t.xid) (mspKey mspName) row settled
      some { w.setRebuild table mspName .idle with
             replayed := Function.update w.replayed mspName (some replayedIds) }
    | _, _ => none
  | .abort mspName =>
    match w.rebuilds mspName, (w.slot mspName).turn with
    | .idle, _ | _, none => none
    | _, some t =>
      let table := w.setSlot (w.table.log.abort t.xid) mspName { w.slot mspName with turn := none }
      some (w.setRebuild table mspName .idle)
  | .markFailed mspName errorMessage =>
    if mspKey mspName ∈ w.table.keys ∧ (w.slot mspName).turn.isNone ∧ w.table.shareLocks = [] then
      let row := (w.slot mspName).row.rebuildFailed errorMessage
      let table := w.setSlot w.table.log.statement mspName { w.slot mspName with row }
      some { w with table }
    else none

/-- What the steps do. -/
inductive ProjectionsStep (registry : String → EventConsumer) (opts : DispatcherOptions)
    (msps : String → Option MultiStreamProjectionDefinition) (w : Projections) :
    ProjectionsAct → Projections → Prop
  | table {a : ConsumersAct} {table : Consumers} :
    (∀ key, touchedKey w.table a = some key → w.rebuilding key = false) →
    ConsumersStep registry opts w.table a table →
    ProjectionsStep registry opts msps w (.table a) { w with table }
  | start {mspName : String} :
    w.rebuilds mspName = .idle → (w.slot mspName).turn = none →
    ProjectionsStep registry opts msps w (.start mspName)
      (w.setRebuild (w.setSlot w.table.log.claim mspName { w.slot mspName with
        turn := some ⟨w.table.log.xacts.nextXid, (w.slot mspName).row, .skipped⟩ })
        mspName .started)
  | readSeed {mspName : String} {top : Option ConsumerKey} :
    w.rebuilds mspName = .started → w.IsTop mspName top →
    ProjectionsStep registry opts msps w (.readSeed mspName top)
      (w.setRebuild w.table mspName (.seeded (selectEventIdHorizonWithMissingRanges w.table.log
        ((w.slot mspName).turn.map (·.xid)) (top.map w.table.row))))
  | replay {mspName : String} {answer : EventRow → Option HandlerError} {seed : EventIdHorizon}
    {msp : MultiStreamProjectionDefinition} {r : Replay} :
    msps mspName = some msp → w.rebuilds mspName = .seeded seed →
    replayEvents msp.skipApplyErrors answer .start (selectReplayEvents w.table.log.visibleRows
      msp.subscribedTypes seed.horizon) = .ok r →
    ProjectionsStep registry opts msps w (.replay mspName answer) (w.setRebuild w.table mspName
      (.replayed seed r (settledByReplay w.table.log seed.gaps r)))
  | readXmax {mspName : String} {seed : EventIdHorizon} {r : Replay} {settled : List ℕ} :
    w.rebuilds mspName = .replayed seed r settled →
    ProjectionsStep registry opts msps w (.readXmax mspName) (w.setRebuild w.table mspName
      (.finished ((w.slot mspName).row.rebuilt r.lastProcessedEventId (mergeContiguousGapRanges
        (withBound w.table.log.xacts.xmax (cappedGaps seed.gaps r)))) r.replayedIds settled))
  | commit {mspName : String} {row : ConsumerStateRow} {replayedIds settled : List ℕ} {t : Turn} :
    w.rebuilds mspName = .finished row replayedIds settled → (w.slot mspName).turn = some t →
    ProjectionsStep registry opts msps w (.commit mspName)
      { w.setRebuild (w.table.handOver (w.table.log.commit t.xid) (mspKey mspName) row settled)
          mspName .idle with
        replayed := Function.update w.replayed mspName (some replayedIds) }
  | abort {mspName : String} {t : Turn} :
    w.rebuilds mspName ≠ .idle → (w.slot mspName).turn = some t →
    ProjectionsStep registry opts msps w (.abort mspName)
      (w.setRebuild (w.setSlot (w.table.log.abort t.xid) mspName
        { w.slot mspName with turn := none }) mspName .idle)
  | markFailed {mspName errorMessage : String} :
    mspKey mspName ∈ w.table.keys → (w.slot mspName).turn = none →
    ProjectionsStep registry opts msps w (.markFailed mspName errorMessage)
      { w with table := w.setSlot w.table.log.statement mspName { w.slot mspName with
          row := (w.slot mspName).row.rebuildFailed errorMessage } }

section
variable {registry : String → EventConsumer} {opts : DispatcherOptions}
  {msps : String → Option MultiStreamProjectionDefinition} {w w' : Projections} {a : ProjectionsAct}

/-- A step goes by one of the rules. -/
theorem ProjectionsStep.of_step (h : projectionsStep registry opts msps w a = some w') :
    ProjectionsStep registry opts msps w a w' := by
  cases a with
  | table a =>
    simp only [projectionsStep, Option.ite_none_left_eq_some] at h
    obtain ⟨hfree, h⟩ := h
    obtain ⟨table, hs, rfl⟩ := Option.map_eq_some_iff.1 h
    refine .table (fun key hkey => ?_) (.of_step hs)
    rw [hkey] at hfree
    simpa using hfree
  | start mspName =>
    simp only [projectionsStep] at h
    split at h
    · rename_i _ _ _ hr
      simp only [Option.ite_none_right_eq_some, Option.isNone_iff_eq_none] at h
      obtain ⟨⟨ht, _⟩, h⟩ := h
      cases h
      exact .start hr ht
    · cases h
  | readSeed mspName top =>
    simp only [projectionsStep] at h
    split at h
    · rename_i hr
      rw [Option.ite_none_right_eq_some] at h
      obtain ⟨ht, h⟩ := h
      cases h
      exact .readSeed hr ht
    · cases h
  | replay mspName answer =>
    simp only [projectionsStep] at h
    split at h
    · rename_i hm hr
      split at h <;> cases h
      rename_i hrep
      exact .replay hm hr hrep
    · cases h
  | readXmax mspName =>
    simp only [projectionsStep] at h
    split at h <;> cases h
    rename_i hr
    exact .readXmax hr
  | commit mspName =>
    simp only [projectionsStep] at h
    split at h <;> cases h
    rename_i hr ht
    exact .commit hr ht
  | abort mspName =>
    simp only [projectionsStep] at h
    split at h <;> cases h
    rename_i t ht hidle
    exact .abort hidle ht
  | markFailed mspName errorMessage =>
    simp only [projectionsStep, Option.ite_none_right_eq_some, Option.isNone_iff_eq_none] at h
    obtain ⟨⟨hk, ht, _⟩, h⟩ := h
    cases h
    exact .markFailed hk ht

end

/-! ## What is handed off -/

/-- The ids that the turn in progress has resolved so far. -/
def turnResolved (c : EventConsumer) (s : ConsumerSlot) : List ℕ :=
  (s.turn.map (·.phase.resolved c)).getD []

/-- A rebuilt projection has every subscribed event once: from the replay or from a handler call
since. -/
structure HandedOff (c : EventConsumer) (subscribedTypes : List String) (l : Log) (k : Consumer)
    (replayedIds : List ℕ) : Prop where
  /-- Nothing is applied twice. -/
  once : (replayedIds ++ resolvedIds c k.slot.calls).Nodup
  /-- Every visible subscribed event is applied or still to be fetched. -/
  all : ∀ r ∈ l.visibleRows, r.type ∈ subscribedTypes → r.id ∈ replayedIds ∨
    r.id ∈ resolvedIds c k.slot.calls ∨ Covers k.slot.row.pendingGaps r.id ∨
    k.slot.row.lastProcessedEventId < r.id
  /-- With nothing left to fetch, every visible subscribed event is applied. -/
  complete : CaughtUp l k → ∀ r ∈ l.visibleRows, r.type ∈ subscribedTypes →
    r.id ∈ replayedIds ∨ r.id ∈ resolvedIds c k.slot.calls

/-- The bounds of a step: those of the consumer table, and for a rebuild that its scan is not skipped
while a writer in flight has an id in its window, and that `xmax` lies above the running writers with
ids in the gaps it leaves. A turn of a rebuilt projection is not rolled back after its handlers have
run, for what they did is not undone. -/
def HandOffOk (registry : String → EventConsumer) (opts : DispatcherOptions) (w : Projections) :
    ProjectionsAct → Prop
  | .table a => BoundsOk opts w.table a ∧
    match a with
    | .turn key .abort => (w.replayed key.name).isSome → key = mspKey key.name →
        turnResolved (registry key.name) (w.table.consumer key).slot = []
    | _ => True
  | .readSeed mspName top =>
    ScanOk w.table.log ((w.slot mspName).turn.map (·.xid)) (top.map w.table.row)
  | .readXmax mspName =>
    match w.rebuilds mspName with
    | .replayed seed r _ =>
      (∀ d ∈ w.table.log.draws, d.2 ∈ w.table.log.xacts.running →
        Covers (cappedGaps seed.gaps r) d.1 → d.2 < w.table.log.xacts.xmax) ∧
      (opts.batchSize = 0 → cappedGaps seed.gaps r = [])
    | _ => True
  | _ => True

instance (registry : String → EventConsumer) (opts : DispatcherOptions) (w : Projections)
    (a : ProjectionsAct) : Decidable (HandOffOk registry opts w a) := by
  unfold HandOffOk
  split
  · refine @instDecidableAnd _ _ inferInstance ?_
    split <;> infer_instance
  · infer_instance
  · split <;> infer_instance
  · infer_instance

/-- The subscribed types of a projection. -/
def subscribedTypesOf (msps : String → Option MultiStreamProjectionDefinition) (mspName : String) :
    List String := ((msps mspName).map (·.subscribedTypes)).getD []

/-- The rebuild's transaction holds the row. -/
def RowLocked (t : Consumers) (key : ConsumerKey) : Prop :=
  ∃ xid state, (t.consumer key).slot.turn = some ⟨xid, state, .skipped⟩

/-- The settled ids have rows, and the subscribed ones among them were replayed. -/
structure ReplaySound (subscribedTypes : List String) (l : Log) (replayedIds settled : List ℕ) :
    Prop where
  nodup : replayedIds.Nodup
  replayed : ∀ id ∈ replayedIds, id ∈ settled
  rows : ∀ id ∈ settled, ∃ r ∈ l.rows, r.id = id
  subscribed : ∀ r ∈ l.rows, r.id ∈ settled → r.type ∈ subscribedTypes → r.id ∈ replayedIds

/-- What a rebuild knows in each phase. -/
def RebuildOk (opts : DispatcherOptions) (subscribedTypes : List String) (t : Consumers)
    (key : ConsumerKey) : RebuildPhase → Prop
  | .idle => True
  | .started => RowLocked t key
  | .seeded seed => RowLocked t key ∧ SeedHeld t.log seed.horizon seed.gaps
  | .replayed seed r settled => RowLocked t key ∧
    (∃ b, Owes t.log r.lastProcessedEventId (withBound b (cappedGaps seed.gaps r)) settled []) ∧
    Ordered (cappedGaps seed.gaps r) ∧ ReplaySound subscribedTypes t.log r.replayedIds settled
  | .finished row replayedIds settled => RowLocked t key ∧
    Owes t.log row.lastProcessedEventId row.pendingGaps settled [] ∧
    (opts.batchSize = 0 → row.pendingGaps = []) ∧
    ReplaySound subscribedTypes t.log replayedIds settled

/-- What the consumer of a rebuilt projection keeps. -/
structure Rebuilt (c : EventConsumer) (subscribedTypes : List String) (t : Consumers)
    (key : ConsumerKey) (replayedIds : List ℕ) : Prop where
  registered : key ∈ t.keys
  sound : ReplaySound subscribedTypes t.log replayedIds (t.consumer key).skipped
  /-- The handler calls are those of the turns that committed and of the one in progress. -/
  calls : resolvedIds c (t.consumer key).slot.calls =
    (t.consumer key).slot.resolved ++ turnResolved c (t.consumer key).slot

/-- The invariant of the consumer table, the rebuilds and the rebuilt projections. -/
structure HandOffInv (registry : String → EventConsumer) (opts : DispatcherOptions)
    (msps : String → Option MultiStreamProjectionDefinition) (w : Projections) : Prop where
  table : ConsumersInv registry opts w.table
  rebuild : ∀ mspName, RebuildOk opts (subscribedTypesOf msps mspName) w.table (mspKey mspName)
    (w.rebuilds mspName)
  rebuilt : ∀ mspName ids, w.replayed mspName = some ids →
    Rebuilt (registry mspName) (subscribedTypesOf msps mspName) w.table (mspKey mspName) ids

section
variable {registry : String → EventConsumer} {opts : DispatcherOptions}
  {msps : String → Option MultiStreamProjectionDefinition} {w w' : Projections} {a : ProjectionsAct}
  {c : EventConsumer} {types : List String} {t t' : Consumers} {key : ConsumerKey} {l l' : Log}
  {ids settled base : List ℕ} {p : RebuildPhase} {s s' : ConsumerSlot} {b : TurnAct}
  {mspName mspName' : String}

theorem mspKey_ne (h : mspName ≠ mspName') : mspKey mspName ≠ mspKey mspName' :=
  fun he => h (congrArg ConsumerKey.name he)

/-- What a turn has resolved is new, whatever it is doing. -/
theorem SlotInv.nodup (h : SlotInv c opts base l s) :
    (base ++ (s.resolved ++ turnResolved c s)).Nodup := by
  rw [← List.append_assoc]
  cases ht : s.turn with
  | none =>
    simp only [turnResolved, ht, Option.map_none, Option.getD_none, List.append_nil]
    exact h.owes.nodup
  | some turn =>
    have hp := h.turn_phase turn ht
    have ⟨hc, hg⟩ := h.turn_state turn ht
    simp only [turnResolved, ht, Option.map_some, Option.getD_some]
    cases hphase : turn.phase with
    | acquired | xminRead | fetched | skipped =>
      simp only [TurnPhase.resolved, List.append_nil]
      exact h.owes.nodup
    | delivered d burntGaps survivingGaps =>
      rw [hphase] at hp
      obtain ⟨-, hf, hd, hsub, -, -⟩ := hp
      refine List.nodup_append.2
        ⟨h.owes.nodup, hd.resolved_sorted.imp Nat.ne_of_lt, fun id hid id' hid' he => ?_⟩
      subst he
      obtain ⟨⟨e, hem, rfl⟩, _⟩ := hd.resolved _ hid'
      have ⟨hle, hn, _⟩ := h.owes.settled_mem e.id hid
      rcases (hf.mem e hem).2.2 with hlt | ⟨g, hgm, hm⟩
      · rw [hc] at hlt
        exact Nat.not_lt.2 hle hlt
      · exact hn (hg ▸ ⟨g, hsub.subset hgm, hm⟩)
    | persisted row resolved burntGaps =>
      rw [hphase] at hp
      exact hp.2.nodup

/-- A turn that is not rolled back after its handlers have run records every call. -/
theorem TurnStep.calls_eq (hs : TurnStep c opts l s b l' s')
    (h : resolvedIds c s.calls = s.resolved ++ turnResolved c s)
    (hb : b = .abort → turnResolved c s = []) :
    resolvedIds c s'.calls = s'.resolved ++ turnResolved c s' := by
  cases hs with
  | recordFailure => exact h
  | acquire ht | acquireSkip ht =>
    simp only [turnResolved, ht] at h
    exact h
  | readXmin ht | fetch ht | deliverNothing ht | readXmax ht | commitSkipped ht =>
    simp only [turnResolved, ht] at h
    exact h
  | deliver ht =>
    simp only [turnResolved, ht] at h
    simp only [turnResolved, resolvedIds, List.flatMap_append] at h ⊢
    rw [h]
    simp [TurnPhase.resolved, resolvedIds]
  | commit ht =>
    simp only [turnResolved, ht] at h
    rw [h]
    simp [TurnPhase.resolved, turnResolved]
  | abort =>
    rw [hb rfl] at h
    exact h

theorem ReplaySound.ext (h : ReplaySound types l ids settled) (hw' : l'.WF) (he : l.Ext l') :
    ReplaySound types l' ids settled where
  nodup := h.nodup
  replayed := h.replayed
  rows id hid :=
    have ⟨r, hr, hrid⟩ := h.rows id hid
    ⟨r, he.rows r hr, hrid⟩
  subscribed r hr hid ht := by
    obtain ⟨r', hr', heq⟩ := h.rows r.id hid
    obtain rfl := hw'.id_inj (he.rows r' hr') hr heq
    exact h.subscribed r' hr' hid ht

/-- A rebuild's phases survive the others' steps, which leave its lock alone. -/
theorem RebuildOk.ext (h : RebuildOk opts types t key p) (hw : t.log.WF) (hw' : t'.log.WF)
    (he : t.log.Ext t'.log) (hk : p ≠ .idle → t'.consumer key = t.consumer key) :
    RebuildOk opts types t' key p := by
  have locked : p ≠ .idle → RowLocked t key → RowLocked t' key := fun hp hl => by
    rw [RowLocked, hk hp]
    exact hl
  cases p with
  | idle => trivial
  | started => exact locked (by rintro ⟨⟩) h
  | seeded seed => exact ⟨locked (by rintro ⟨⟩) h.1, h.2.ext hw he⟩
  | replayed seed r settled =>
    obtain ⟨hl, ⟨b, ho⟩, hord, hs⟩ := h
    exact ⟨locked (by rintro ⟨⟩) hl, ⟨b, ho.ext hw hw' he⟩, hord, hs.ext hw' he⟩
  | finished row replayedIds settled =>
    obtain ⟨hl, ho, hz, hs⟩ := h
    exact ⟨locked (by rintro ⟨⟩) hl, ho.ext hw hw' he, hz, hs.ext hw' he⟩

/-- A rebuilt projection's consumer that is left alone. -/
theorem Rebuilt.ext (h : Rebuilt c types t key ids) (hw' : t'.log.WF) (he : t.log.Ext t'.log)
    (hm : key ∈ t'.keys) (hk : t'.consumer key = t.consumer key) : Rebuilt c types t' key ids where
  registered := hm
  sound := by
    rw [hk]
    exact h.sound.ext hw' he
  calls := by
    rw [hk]
    exact h.calls

/-- A step that does not touch a consumer leaves it as it is. -/
theorem ConsumersStep.untouched {e : ConsumersAct} (hs : ConsumersStep registry opts t e t')
    (hk : touchedKey t e ≠ some key) : t'.consumer key = t.consumer key := by
  cases hs with
  | writer | check | readSeed | insertConflict | prune | unchanged => rfl
  | turn => exact Consumers.setSlot_of_ne fun he => hk (congrArg some he.symm)
  | setStatus => exact Consumers.setSlot_of_ne fun he => hk (congrArg some he.symm)
  | register => exact Consumers.addConsumer_of_ne fun he => hk (congrArg some he.symm)
  | insert hr =>
    refine Consumers.addConsumer_of_ne fun he => hk ?_
    rw [touchedKey, hr, he]

theorem handOffInv_start : HandOffInv registry opts msps .start :=
  ⟨consumersInv_start, fun _ => trivial, by rintro _ _ ⟨⟩⟩

theorem RebuildOk.locked (h : RebuildOk opts types t key p) (hp : p ≠ .idle) : RowLocked t key := by
  cases p with
  | idle => exact absurd rfl hp
  | started => exact h
  | seeded | replayed | finished => exact h.1

namespace HandOffInv

/-- One rebuild goes on, and its consumer with it. -/
theorem update (h : HandOffInv registry opts msps w) {replayed : String → Option (List ℕ)}
    (ht : ConsumersInv registry opts t) (he : w.table.log.Ext t.log)
    (hk : ∀ key, key ≠ mspKey mspName → t.consumer key = w.table.consumer key)
    (hkeys : ∀ key ∈ w.table.keys, key ∈ t.keys)
    (hp : RebuildOk opts (subscribedTypesOf msps mspName) t (mspKey mspName) p)
    (hne : ∀ mspName', mspName' ≠ mspName → replayed mspName' = w.replayed mspName')
    (hr : ∀ ids, replayed mspName = some ids →
      Rebuilt (registry mspName) (subscribedTypesOf msps mspName) t (mspKey mspName) ids) :
    HandOffInv registry opts msps { w.setRebuild t mspName p with replayed } where
  table := ht
  rebuild mspName' := by
    by_cases hm : mspName' = mspName
    · subst hm
      simpa only [Projections.setRebuild, Function.update_self] using hp
    · simp only [Projections.setRebuild, Function.update_of_ne hm]
      exact (h.rebuild mspName').ext h.table.log ht.log he fun _ => hk _ (mspKey_ne hm)
  rebuilt mspName' ids hids := by
    by_cases hm : mspName' = mspName
    · subst hm
      exact hr ids hids
    · have old := h.rebuilt mspName' ids ((hne mspName' hm) ▸ hids)
      exact old.ext ht.log he (hkeys _ old.registered) (hk _ (mspKey_ne hm))

/-- One rebuild goes on and leaves the consumers alone. -/
theorem setRebuild (h : HandOffInv registry opts msps w)
    (hp : RebuildOk opts (subscribedTypesOf msps mspName) w.table (mspKey mspName) p) :
    HandOffInv registry opts msps (w.setRebuild w.table mspName p) :=
  h.update h.table (.refl _) (fun _ _ => rfl) (fun _ hk => hk) hp (fun _ _ => rfl)
    (h.rebuilt mspName)

/-- A rebuild locks its consumer's row, gives it back, or writes to it. -/
theorem setSlot (h : HandOffInv registry opts msps w)
    (ht : ConsumersInv registry opts (w.setSlot l mspName s)) (he : w.table.log.Ext l)
    (hp : RebuildOk opts (subscribedTypesOf msps mspName) (w.setSlot l mspName s)
      (mspKey mspName) p)
    (hc : s.calls = (w.slot mspName).calls) (hres : s.resolved = (w.slot mspName).resolved)
    (ht₁ : turnResolved (registry mspName) (w.slot mspName) = [])
    (ht₂ : turnResolved (registry mspName) s = []) :
    HandOffInv registry opts msps (w.setRebuild (w.setSlot l mspName s) mspName p) := by
  refine h.update (t := w.setSlot l mspName s) ht he (fun _ hk => Consumers.setSlot_of_ne hk) (fun _ hk => hk) hp
    (fun _ _ => rfl) fun ids hids => ?_
  have old := h.rebuilt mspName ids hids
  have hcalls := old.calls
  change resolvedIds _ (w.slot mspName).calls = (w.slot mspName).resolved ++
    turnResolved _ (w.slot mspName) at hcalls
  rw [ht₁, ← hc, ← hres] at hcalls
  refine ⟨old.registered, ?_, ?_⟩
  · rw [Projections.setSlot_self]
    exact old.sound.ext ht.log he
  · rw [Projections.setSlot_self, ht₂]
    exact hcalls

/-- A step of the consumer table. -/
theorem tableStep {e : ConsumersAct} (h : HandOffInv registry opts msps w)
    (hok : HandOffOk registry opts w (.table e))
    (hfree : ∀ key, touchedKey w.table e = some key → w.rebuilding key = false)
    (hs : ConsumersStep registry opts w.table e t) :
    HandOffInv registry opts msps { w with table := t } := by
  have ht := h.table.step hok.1 hs
  have he := hs.ext h.table
  refine ⟨ht, fun mspName => ?_, fun mspName ids hids => ?_⟩
  · refine (h.rebuild mspName).ext h.table.log ht.log he fun hp => hs.untouched fun hk => ?_
    have hr := hfree _ hk
    cases hphase : w.rebuilds mspName with
    | idle => exact hp hphase
    | started | seeded | replayed | finished =>
      rw [Projections.rebuilding, show (mspKey mspName).name = mspName from rfl, hphase] at hr
      cases hr
  · have old := h.rebuilt mspName ids hids
    obtain ⟨hm, heq | ⟨b, slot, rfl, hturn, heq⟩ | ⟨hnone, row, heq⟩⟩ :=
      hs.consumer_cases old.registered
    · exact old.ext ht.log he hm heq
    · refine ⟨hm, heq ▸ old.sound.ext ht.log he, ?_⟩
      rw [heq]
      refine hturn.calls_eq old.calls fun hb => ?_
      subst hb
      exact hok.2 (hids ▸ rfl) rfl
    · refine ⟨hm, heq ▸ old.sound.ext ht.log he, ?_⟩
      rw [heq]
      exact old.calls

/-- The transaction of a rebuild is nobody else's. -/
theorem others (h : HandOffInv registry opts msps w) {turn : Turn}
    (ht : (w.slot mspName).turn = some turn) {q : Party} {x : ℕ}
    (hq : q ≠ .consumer (mspKey mspName)) (hx : w.table.xid q = some x) :
    w.table.log.Reading x ∧ x ≠ turn.xid := by
  refine ⟨h.table.reading hx, fun he => hq (h.table.alone q _ x hx ?_)⟩
  change (w.slot mspName).turn.map (·.xid) = some x
  rw [ht, he]
  rfl

/-- The replay keeps what its seed holds. -/
theorem replayStep {seed : EventIdHorizon} {r : Replay} (h : HandOffInv registry opts msps w)
    (hr : w.rebuilds mspName = .seeded seed)
    (hrep : Replayed w.table.log (subscribedTypesOf msps mspName) seed.horizon r) :
    HandOffInv registry opts msps (w.setRebuild w.table mspName
      (.replayed seed r (settledByReplay w.table.log seed.gaps r))) := by
  have hl := h.table.log
  have hold := h.rebuild mspName
  rw [hr] at hold
  obtain ⟨hlock, hseed⟩ := hold
  have hsorted := hrep.sorted hl
  refine h.setRebuild ⟨hlock, ⟨_, .handOff hl hseed hrep (le_refl _)⟩,
    (cappedGaps_spec hseed.ordered (hsorted.imp Nat.le_of_lt)).1,
    ⟨hsorted.imp Nat.ne_of_lt, fun id hid => hrep.replayed_settled hl hseed.ordered hid,
      fun id hid => ?_, fun e he hid ht => hrep.subscribed hl he hid ht⟩⟩
  obtain ⟨e, he, _, hid⟩ := mem_visibleIds.1 (mem_settledByReplay.1 hid).1
  exact ⟨e, he, hid⟩

/-- The bounds that are read after the replay are high enough. -/
theorem readXmaxStep {seed : EventIdHorizon} {r : Replay}
    (h : HandOffInv registry opts msps w) (hok : HandOffOk registry opts w (.readXmax mspName))
    (hr : w.rebuilds mspName = .replayed seed r settled) :
    HandOffInv registry opts msps (w.setRebuild w.table mspName
      (.finished ((w.slot mspName).row.rebuilt r.lastProcessedEventId (mergeContiguousGapRanges
        (withBound w.table.log.xacts.xmax (cappedGaps seed.gaps r)))) r.replayedIds settled)) := by
  have hold := h.rebuild mspName
  rw [hr] at hold
  obtain ⟨hlock, ⟨b, ho⟩, hord, hs⟩ := hold
  simp only [HandOffOk, hr] at hok
  obtain ⟨hx, hz⟩ := hok
  have hwb := ordered_withBound (b := w.table.log.xacts.xmax) hord
  obtain ⟨hm, hmc, hmx⟩ := mergeContiguousGapRanges_spec _ hwb.nonempty hwb.apart
  refine h.setRebuild ⟨hlock, ho.rebound hm (fun id => ?_) fun g hg d hd hmem hrun => ?_, fun h0 => ?_,
    hs⟩
  · exact (hmc id).trans (covers_withBound.trans covers_withBound.symm)
  · obtain ⟨g', hg', hmem', hle⟩ := hmx g hg d.1 hmem
    rw [xmax_of_mem_withBound hg'] at hle
    exact (hx d hd hrun (covers_withBound.1 ⟨g', hg', hmem'⟩)).trans_le hle
  · rw [ConsumerStateRow.rebuilt, hz h0]
    rfl

/-- A rebuild commits. -/
theorem commitStep {row : ConsumerStateRow} {turn : Turn} (h : HandOffInv registry opts msps w)
    (hr : w.rebuilds mspName = .finished row ids settled)
    (ht : (w.slot mspName).turn = some turn) :
    HandOffInv registry opts msps
      { w.setRebuild (w.table.handOver (w.table.log.commit turn.xid) (mspKey mspName) row settled)
          mspName .idle with
        replayed := Function.update w.replayed mspName (some ids) } := by
  have hl := h.table.log
  have hold := h.rebuild mspName
  rw [hr] at hold
  obtain ⟨_, ho, hz, hs⟩ := hold
  have hread := (h.table.slot (mspKey mspName)).turn_xid turn ht
  have hl' := hl.commit hread
  have he := Log.ext_commit hread
  have htable : ConsumersInv registry opts
      (w.table.handOver (w.table.log.commit turn.xid) (mspKey mspName) row settled) :=
    h.table.update hl' he
      (fun q x hq hx => have ⟨hx, hne⟩ := h.others ht hq hx; hx.commit hne)
      (.fresh (ho.ext hl hl' he) hz) (.inl rfl)
  refine h.update htable he (fun _ => Consumers.handOver_of_ne)
    (fun _ => Consumers.mem_handOver_of_mem) trivial (fun _ hne => Function.update_of_ne hne ..)
    fun ids' hids => ?_
  rw [Function.update_self] at hids
  cases hids
  refine ⟨Consumers.mem_handOver, ?_, ?_⟩
  · rw [Consumers.handOver_self]
    exact hs.ext hl' he
  · rw [Consumers.handOver_self]
    rfl

/-- Every step that meets the conditions keeps the invariant. -/
theorem step (h : HandOffInv registry opts msps w) (hok : HandOffOk registry opts w a)
    (hs : ProjectionsStep registry opts msps w a w') : HandOffInv registry opts msps w' := by
  have hl := h.table.log
  cases hs with
  | table hfree hs => exact h.tableStep hok hfree hs
  | @start mspName hr ht =>
    have hslot := h.table.slot (mspKey mspName)
    have hnone : turnResolved (registry mspName) (w.slot mspName) = [] := by
      rw [turnResolved, ht]
      rfl
    refine h.setSlot ?_ (Log.ext_claim _) ?_ rfl rfl hnone rfl
    · exact h.table.setSlot hl.claim (Log.ext_claim _) (fun q x _ hx => (h.table.reading hx).claim)
        (hslot.locked hl rfl rfl trivial) (.inr (.inr rfl))
    · refine ⟨w.table.log.xacts.nextXid, (w.slot mspName).row, ?_⟩
      rw [Projections.setSlot_self]
  | @readSeed mspName top hr =>
    have hlock := (h.rebuild mspName).locked (by rw [hr]; rintro ⟨⟩)
    exact h.setRebuild ⟨hlock, seedHeld hl (h.table.top top) hok⟩
  | replay hm hr hrep =>
    refine h.replayStep hr ?_
    rw [subscribedTypesOf, hm]
    exact .of_replayEvents hrep
  | readXmax hr => exact h.readXmaxStep hok hr
  | commit hr ht => exact h.commitStep hr ht
  | @abort mspName turn hr ht =>
    have hslot := h.table.slot (mspKey mspName)
    have hread := hslot.turn_xid turn ht
    have hl' := hl.abort hread
    have he := Log.ext_abort w.table.log turn.xid
    obtain ⟨xid, state, hlock⟩ := (h.rebuild mspName).locked hr
    have hskip : turnResolved (registry mspName) (w.slot mspName) = [] := by
      rw [turnResolved, Projections.slot, hlock]
      rfl
    refine h.setSlot ?_ he trivial rfl rfl hskip rfl
    exact h.table.setSlot hl' he
      (fun q x hq hx => have ⟨hx, hne⟩ := h.others ht hq hx; hx.abort hne)
      (hslot.unlocked _ hl hl' he rfl rfl) (.inl rfl)
  | @markFailed mspName errorMessage hk ht =>
    have hslot := h.table.slot (mspKey mspName)
    have hl' := hl.statement
    have he := Log.ext_statement hl
    -- the row is not locked, so there is no rebuild
    have hidle : w.rebuilds mspName = .idle := by
      by_contra hne
      obtain ⟨xid, state, hlock⟩ := (h.rebuild mspName).locked hne
      rw [Projections.slot, hlock] at ht
      cases ht
    have hnone : turnResolved (registry mspName) (w.slot mspName) = [] := by
      rw [turnResolved, ht]
      rfl
    have hset := h.setSlot (p := .idle)
      (s := { w.slot mspName with row := (w.slot mspName).row.rebuildFailed errorMessage })
      (h.table.setSlot hl' he (fun q x _ hx => (h.table.reading hx).statement hl)
        ?_ (.inl (by rw [ht]; rfl))) he trivial rfl rfl hnone hnone
    · rwa [Projections.setRebuild, ← hidle, Function.update_eq_self] at hset
    · have := hslot.unlocked ((w.slot mspName).row.rebuildFailed errorMessage) hl hl' he rfl rfl
      rwa [← ht] at this

/-- What the invariant says of a rebuilt projection. -/
theorem handedOff (h : HandOffInv registry opts msps w) (hids : w.replayed mspName = some ids) :
    HandedOff (registry mspName) (subscribedTypesOf msps mspName) w.table.log
      (w.table.consumer (mspKey mspName)) ids := by
  have hslot := h.table.slot (mspKey mspName)
  have old := h.rebuilt mspName ids hids
  have hn := List.nodup_append.1 hslot.nodup
  have all : ∀ r ∈ w.table.log.visibleRows, r.type ∈ subscribedTypesOf msps mspName → r.id ∈ ids ∨
      r.id ∈ resolvedIds (registry mspName) (w.table.consumer (mspKey mspName)).slot.calls ∨
      Covers (w.table.consumer (mspKey mspName)).slot.row.pendingGaps r.id ∨
      (w.table.consumer (mspKey mspName)).slot.row.lastProcessedEventId < r.id := by
    intro r hr ht
    obtain ⟨hr, hx, hp⟩ := Log.mem_visibleRows.1 hr
    rcases Nat.lt_or_ge (w.table.consumer (mspKey mspName)).slot.row.lastProcessedEventId r.id with
      hlt | hle
    · exact .inr (.inr (.inr hlt))
    rcases hslot.owes.accounted r hr hle with hs | hcov | hab | hpr
    · rcases List.mem_append.1 hs with hs | hs
      · exact .inl (old.sound.subscribed r hr hs ht)
      · exact .inr (.inl (old.calls ▸ List.mem_append_left _ hs))
    · exact .inr (.inr (.inl hcov))
    · exact absurd hx hab.2.2
    · exact absurd hpr hp
  refine ⟨?_, all, fun hup r hr ht => ?_⟩
  · rw [old.calls]
    exact List.nodup_append.2 ⟨old.sound.nodup, hn.2.1, fun id hid id' hid' =>
      hn.2.2 id (old.sound.replayed id hid) id' hid'⟩
  · have ⟨hle, hcov⟩ := hup r hr
    rcases all r hr ht with h' | h' | h' | h'
    · exact .inl h'
    · exact .inr h'
    · exact absurd h' hcov
    · exact absurd h' (Nat.not_lt.2 hle)

end HandOffInv

/-- In every run that meets the conditions, every rebuilt projection has every subscribed event once,
from the replay or from a turn since. -/
theorem handed_off_of_run (hr : Run (projectionsStep registry opts msps) (HandOffOk registry opts)
    .start w) (hids : w.replayed mspName = some ids) :
    HandedOff (registry mspName) (subscribedTypesOf msps mspName) w.table.log
      (w.table.consumer (mspKey mspName)) ids :=
  (hr.invariant handOffInv_start fun _ _ _ h hok hs => h.step hok (.of_step hs)).handedOff hids

end

/-! ## The event that is lost in the hand-off -/

/-- A projection that is subscribed to the events of the runs. -/
def rebuiltProjection : String → Option MultiStreamProjectionDefinition := fun _ =>
  some { subscribedTypes := ["order.changed"], rebuild := none, continuous := none }

/-- Two writers; the one that draws the lower id, `late`, commits after the rebuild, the other before
it. -/
def rebuildDuring (late early : ℕ) : List ProjectionsAct :=
  ([.claim, .claim, .draw late, .draw early, .insert late 1 (someEvent "a" 1),
    .insert early 2 (someEvent "b" 1), .commit early] : List LogAct).map (.table ∘ .writer) ++
  [.start "orders", .readSeed "orders" none, .replay "orders" fun _ => none, .readXmax "orders",
    .commit "orders", .table (.writer (.commit late))]

/-- The writer with the lower transaction id commits late: its event is left to the live turns. -/
theorem handed_off_of_run_lateCommit : ∃ w : Projections, ∃ ids,
    HandedOff perEventConsumer ["order.changed"] w.table.log
      (w.table.consumer (mspKey "orders")) ids ∧
    w.replayed "orders" = some ids ∧ ids = [2] ∧
      resolvedIds perEventConsumer (w.table.consumer (mspKey "orders")).slot.calls = [1] := by
  have ⟨w, hr, hw⟩ := exists_run_of_execOk
    (projectionsStep (fun _ => perEventConsumer) .default rebuiltProjection)
    (fun w a => HandOffOk (fun _ => perEventConsumer) .default w a) .start
    (rebuildDuring 1 2 ++ (fullTurn .allOk).map fun a => .table (.turn (mspKey "orders") a))
    (fun w => w.replayed "orders" == some [2] && resolvedIds perEventConsumer
      (w.table.consumer (mspKey "orders")).slot.calls == [1])
    (fun _ _ => of_decide_eq_true) (by decide +kernel) (by decide +kernel)
  simp only [Bool.and_eq_true, beq_iff_eq] at hw
  exact ⟨w, [2], handed_off_of_run hr hw.1, hw.1, rfl, hw.2⟩

/-- The writer with the higher transaction id commits late: the snapshot of the rebuild lists no
running transaction, so the hole at its id is not recorded, and its event is neither replayed nor
fetched by any turn. -/
theorem not_handed_off : ¬ ∀ (registry : String → EventConsumer) (opts : DispatcherOptions)
    (msps : String → Option MultiStreamProjectionDefinition) (w : Projections),
    Run (projectionsStep registry opts msps) (fun _ _ => True) .start w →
    ∀ mspName ids, w.replayed mspName = some ids →
      HandedOff (registry mspName) (subscribedTypesOf msps mspName) w.table.log
        (w.table.consumer (mspKey mspName)) ids := fun h => by
  have ⟨w, hr, hw⟩ := exists_run_of_exec
    (projectionsStep (fun _ => perEventConsumer) .default rebuiltProjection) .start
    (rebuildDuring 2 1)
    (fun w => w.replayed "orders" == some [2] && w.table.log.visibleRows.any fun r =>
      r.type ∈ subscribedTypesOf rebuiltProjection "orders" && r.id ∉ [2] &&
      r.id ∉ resolvedIds perEventConsumer (w.table.consumer (mspKey "orders")).slot.calls &&
        !Covers (w.table.consumer (mspKey "orders")).slot.row.pendingGaps r.id &&
        r.id ≤ (w.table.consumer (mspKey "orders")).slot.row.lastProcessedEventId)
    (by decide +kernel)
  simp only [Bool.and_eq_true, beq_iff_eq, decide_eq_true_eq, List.any_eq_true, Bool.not_eq_true',
    decide_eq_false_iff_not] at hw
  obtain ⟨hids, r, hvis, ⟨⟨⟨ht, hrep⟩, hcall⟩, hcov⟩, hle⟩ := hw
  rcases (h _ _ _ w hr "orders" [2] hids).all r hvis ht with h' | h' | h' | h'
  · exact hrep h'
  · exact hcall h'
  · exact hcov h'
  · exact Nat.not_lt.2 hle h'

end Kumiko
