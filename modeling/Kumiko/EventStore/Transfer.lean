import Kumiko.EventStore.SessionSteps
import Kumiko.EventStore.Versions

/-!
# Ids and versions

Readers take events by id and rely on versions ascending with them. `appendRawBatch` inserts its events as they
are listed and checks a sorted copy, so a batch that lists a later version first passes (`not_id_order`). A
transfer takes the rows it sees, of one aggregate type, and leaves behind what is committed beside it. Where
batches ascend and transfers move whole streams, ids ascend with versions (`id_order_of_run`).
-/

namespace Kumiko

open Transition

/-- Reference: `TransferAggregateStreamsArgs`. -/
structure TransferArgs where
  sourceTenantId : String
  destinationTenantId : String
  aggregateType : String
  aggregateIds : List String

/-- A transfer that has updated its rows and not ended: the tenants, and the ids of the rows. -/
structure OpenTransfer where
  source : String
  destination : String
  ids : List ℕ
  deriving DecidableEq

namespace OpenTransfer

/-- The row after the transfer. -/
def moveRow (t : OpenTransfer) (r : EventRow) : EventRow :=
  if r.id ∈ t.ids then { r with tenantId := t.destination } else r

/-- The record of an insert follows its row. -/
def moveWrite (t : OpenTransfer) (w : Written) : Written :=
  if w.id ∈ t.ids then { w with event := { w.event with tenantId := t.destination } } else w

/-- The archive marker of a stream follows the stream. Reference: `transferArchivedStreamRows`. -/
def moveMarker (t : OpenTransfer) (aggregateIds : List String) (stream : String × String) : String × String :=
  if stream.1 = t.source ∧ stream.2 ∈ aggregateIds then (t.destination, stream.2) else stream

end OpenTransfer

/-- The event table with its writers and the transfers in progress. -/
structure EventTable where
  store : Store
  transfers : List OpenTransfer

/-- A step of a writer or of a transfer. -/
inductive TableAct
  | store (a : StoreAct)
  /-- Reference: `transferEventRows`. -/
  | transferEventRows (args : TransferArgs)
  /-- The transfer commits, with the archive markers of its type. -/
  | commitTransfer (t : OpenTransfer) (markers : List String)
  | abortTransfer (t : OpenTransfer)

/-- Two rows have an entry of a unique index in common. -/
def RowsConflict (r r' : EventRow) : Prop :=
  (r.stream = r'.stream ∧ r.version = r'.version) ∨
    (r.tenantId = r'.tenantId ∧ r.idempotencyKey.isSome ∧ r.idempotencyKey = r'.idempotencyKey)

instance (r r' : EventRow) : Decidable (RowsConflict r r') := inferInstanceAs (Decidable (_ ∨ _))

namespace EventTable

def initial : EventTable := { store := .initial, transfers := [] }

/-- The index entries that transfers in progress hold: of the rows as they were and as they will be. -/
def heldRows (s : EventTable) : List EventRow :=
  s.transfers.flatMap fun t => (s.store.log.rows.filter (·.id ∈ t.ids)).flatMap fun r => [r, t.moveRow r]

/-- The next statement of the step's call places a row, and waits for a transfer. -/
def Waits (s : EventTable) : StoreAct → Prop
  | .run k _ =>
    match (s.store.sessions k).call with
    | some ⟨_, .place _ _ ev _⟩ => ∃ r ∈ s.heldRows, Store.SameVersion r ev ∨ Store.SameKey r ev
    | _ => False
  | _ => False

instance (s : EventTable) (a : StoreAct) : Decidable (s.Waits a) := by
  unfold Waits
  split
  · split <;> infer_instance
  · infer_instance

/-- The rows the statement of a transfer finds. -/
def movableRows (s : EventTable) (args : TransferArgs) : List EventRow :=
  s.store.log.visibleRows.filter fun r => r.tenantId = args.sourceTenantId ∧
    r.aggregateType = args.aggregateType ∧ r.aggregateId ∈ args.aggregateIds

/-- The transfer of the rows. -/
def transferOf (s : EventTable) (args : TransferArgs) : OpenTransfer where
  source := args.sourceTenantId
  destination := args.destinationTenantId
  ids := (s.movableRows args).map (·.id)

/-- Another transaction, or another transfer, holds a row or an index entry that the update needs. -/
def TransferWaits (s : EventTable) (args : TransferArgs) : Prop :=
  ∃ r ∈ s.movableRows args, (∃ t ∈ s.transfers, r.id ∈ t.ids) ∨
    ∃ r' ∈ s.heldRows ++ s.store.log.rows.filter (·.xid ∈ s.store.log.xacts.running),
      RowsConflict ((s.transferOf args).moveRow r) r'

instance (s : EventTable) (args : TransferArgs) : Decidable (s.TransferWaits args) :=
  inferInstanceAs (Decidable (∃ r ∈ _, _))

/-- The update violates a unique index. -/
def TransferViolates (s : EventTable) (args : TransferArgs) : Prop :=
  ∃ r ∈ s.movableRows args, ∃ r' ∈ s.store.log.visibleRows, r'.id ≠ r.id ∧
    RowsConflict ((s.transferOf args).moveRow r) r'

instance (s : EventTable) (args : TransferArgs) : Decidable (s.TransferViolates args) :=
  inferInstanceAs (Decidable (∃ r ∈ _, _))

/-- The store after the transfer. -/
def moved (s : Store) (t : OpenTransfer) (markers : List String) : Store :=
  { s with
    log := { s.log with rows := s.log.rows.map t.moveRow }
    writes := s.writes.map t.moveWrite
    archived := s.archived.map (t.moveMarker markers) }

/-- One step of the table. -/
def step (s : EventTable) : TableAct → Option EventTable
  | .store a => if s.Waits a then none else (s.store.step a).map fun store => { s with store }
  | .transferEventRows args =>
    if s.TransferWaits args then none
    else if s.TransferViolates args then some s
    else some { s with transfers := s.transferOf args :: s.transfers }
  | .commitTransfer t markers =>
    if t ∈ s.transfers then
      some { store := moved s.store t markers, transfers := s.transfers.erase t }
    else none
  | .abortTransfer t =>
    if t ∈ s.transfers then some { s with transfers := s.transfers.erase t } else none

end EventTable

/-! ## When ids ascend with versions -/

/-- The events of a call whose predecessors have been looked up and that are not inserted yet. -/
def CallPhase.checked : CallPhase → List EventToAppend
  | .predecessors first others _ | .duplicates first others => first :: others
  | .claim w | .seedCheck w | .gate w => if w.isBatch then w.events else []
  | .draw _ rest => rest
  | .place _ _ ev rest => ev :: rest
  | _ => []

namespace EventTable

/-- The transfer moves a row of the stream. -/
def Moves (s : EventTable) (t : OpenTransfer) (stream : String × String) : Prop :=
  ∃ r ∈ s.store.log.rows, r.id ∈ t.ids ∧ r.stream = stream

/-- A transfer commits whole streams: it leaves no row of a stream behind that is not rolled back, and no
event is on its way into the stream after its predecessor was found there. -/
structure MovesWhole (s : EventTable) (t : OpenTransfer) : Prop where
  rows : ∀ r ∈ s.store.log.rows, ¬ s.store.log.xacts.Aborted r.xid → s.Moves t r.stream → r.id ∈ t.ids
  calls : ∀ k c, (s.store.sessions k).call = some c → ∀ ev ∈ c.phase.checked, ev.expectedVersion ≠ 0 →
    ¬ s.Moves t ev.stream

/-- Batches list the events of each stream in ascending order, and transfers commit whole streams. -/
def TableOk (s : EventTable) : TableAct → Prop
  | .store a => Store.BatchAscending a
  | .commitTransfer t _ => s.MovesWhole t
  | _ => True

end EventTable

/-! ## A writer's step -/

namespace Store

/-- A step inserts a row only where a call places one. -/
theorem step_rows {s s' : Store} {a : StoreAct} (h : s.step a = some s') : s'.log.rows = s.log.rows ∨
    ∃ k now n w id ev rest x now', a = .run k now ∧ (s.sessions k).call = some ⟨n, .place w id ev rest⟩ ∧
      s.log.step (.insert x id (ev.toNewEvent now')) = some s'.log := by
  cases StoreStep.of_step h with
  | archive | begin | leave | start | reject | goto | complete | fail => exact .inl rfl
  | commit _ _ hl | rollback _ _ hl | claim _ _ hl | draw _ _ hl => exact .inl (Log.step_rows hl (by simp))
  | @insert _ k n _ _ _ w _ rest _ hc _ _ hl =>
    have hc' : ((s.goto k n (.draw w rest)).sessions k).call = some ⟨n, .draw w rest⟩ := by simp [goto, setSession]
    obtain ⟨now, rfl⟩ := run_of_call h hc hc' (by simp)
    exact .inr ⟨_, now, _, _, _, _, _, _, _, rfl, hc, hl⟩
  | raise _ _ hl =>
    rcases abortLog_cases hl with ⟨-, rfl⟩ | ⟨y, -, hl⟩
    · exact .inl rfl
    · exact .inl (Log.step_rows hl (by simp))

end Store

/-! ## The invariant -/

namespace EventTable

/-- What an open transfer keeps: its rows are rows of its source, and nobody else has what will be their
place. -/
structure OpenOk (s : Store) (t : OpenTransfer) : Prop where
  known : ∀ id ∈ t.ids, ∃ r ∈ s.log.rows, r.id = id
  source : ∀ r ∈ s.log.rows, r.id ∈ t.ids → r.tenantId = t.source
  free : ∀ m ∈ s.log.rows, m.id ∈ t.ids → ∀ r ∈ s.log.rows, ¬ s.log.xacts.Aborted r.xid → r.id ≠ m.id →
    ¬ ((t.moveRow m).stream = r.stream ∧ (t.moveRow m).version = r.version)

/-- Two transfers have no row in common, and no place. -/
structure Apart (s : Store) (t t' : OpenTransfer) : Prop where
  ids : ∀ id ∈ t.ids, id ∉ t'.ids
  places : ∀ m ∈ s.log.rows, m.id ∈ t.ids → ∀ m' ∈ s.log.rows, m'.id ∈ t'.ids →
    ¬ ((t.moveRow m).stream = (t'.moveRow m').stream ∧ (t.moveRow m).version = (t'.moveRow m').version)

/-- What every run whose steps are `TableOk` maintains. -/
structure TableInv (s : EventTable) : Prop where
  sessions : Store.SessionInv s.store
  streams : Store.StreamInv True s.store
  opened : ∀ t ∈ s.transfers, OpenOk s.store t
  apart : s.transfers.Pairwise (Apart s.store)

section
variable {s s' : EventTable} {t t' : OpenTransfer} {r r' m : EventRow} {st : Store}

theorem Apart.symm (h : Apart st t t') : Apart st t' t :=
  ⟨fun id hid hid' => h.ids id hid' hid, fun m hm hid m' hm' hid' he =>
    h.places m' hm' hid' m hm hid ⟨he.1.symm, he.2.symm⟩⟩

@[simp] theorem moveRow_id (t : OpenTransfer) (r : EventRow) : (t.moveRow r).id = r.id := by
  unfold OpenTransfer.moveRow
  split <;> rfl

@[simp] theorem moveRow_xid (t : OpenTransfer) (r : EventRow) : (t.moveRow r).xid = r.xid := by
  unfold OpenTransfer.moveRow
  split <;> rfl

@[simp] theorem moveRow_version (t : OpenTransfer) (r : EventRow) : (t.moveRow r).version = r.version := by
  unfold OpenTransfer.moveRow
  split <;> rfl

theorem moveRow_of_mem (h : r.id ∈ t.ids) : (t.moveRow r).stream = (t.destination, r.aggregateId) := by
  rw [OpenTransfer.moveRow, if_pos h]
  rfl

theorem moveRow_of_not_mem (h : r.id ∉ t.ids) : t.moveRow r = r := if_neg h

/-- A transfer changes neither the ids nor the writers of the rows. -/
theorem wf_moved {l : Log} (h : l.WF) (t : OpenTransfer) : { l with rows := l.rows.map t.moveRow }.WF where
  xacts := h.xacts
  sorted := List.pairwise_map.2 (h.sorted.imp fun hlt => by simpa using hlt)
  drawn r hr := by
    obtain ⟨r', hr', rfl⟩ := List.mem_map.1 hr
    simpa using h.drawn r' hr'
  draw_lt := h.draw_lt
  draw_inj := h.draw_inj
  nextId_pos := h.nextId_pos
  writers_lt := h.writers_lt
  draw_writer := h.draw_writer

/-- The writers' sessions do not notice a transfer. -/
theorem sessionInv_moved (h : Store.SessionInv st) (t : OpenTransfer) (markers : List String) :
    Store.SessionInv (moved st t markers) := by
  have hcall : ∀ w : Written, (t.moveWrite w).call = w.call ∧ (t.moveWrite w).id = w.id ∧
      (t.moveWrite w).xid = w.xid := fun w => by
    unfold OpenTransfer.moveWrite
    split <;> exact ⟨rfl, rfl, rfl⟩
  have hwrite : ∀ {w}, w ∈ (moved st t markers).writes → ∃ w' ∈ st.writes, w = t.moveWrite w' := fun hw => by
    obtain ⟨w', hw', rfl⟩ := List.mem_map.1 hw
    exact ⟨w', hw', rfl⟩
  refine ⟨wf_moved h.log t, h.pruned, fun k => ?_, h.distinct, fun w hw => ?_, h.failure_lt,
    fun f hf w hw he => ?_, fun w hw => ?_, ?_⟩
  · have hk := h.session k
    refine ⟨hk.xid, hk.call_lt, hk.phase, fun c hc w hw he => ?_, hk.failures⟩
    obtain ⟨w', hw', rfl⟩ := hwrite hw
    rw [(hcall w').1] at he
    rw [(hcall w').2.2]
    exact hk.writes c hc w' hw' he
  · obtain ⟨w', hw', rfl⟩ := hwrite hw
    rw [(hcall w').1]
    exact h.write_lt w' hw'
  · obtain ⟨w', hw', rfl⟩ := hwrite hw
    rw [(hcall w').1] at he
    rw [(hcall w').2.2]
    exact h.failed f hf w' hw' he
  · obtain ⟨w', hw', rfl⟩ := hwrite hw
    obtain ⟨r, hr, hid, hxid, hstream, hversion⟩ := h.row w' hw'
    refine ⟨t.moveRow r, List.mem_map_of_mem hr, ?_⟩
    rw [moveRow_id, moveRow_xid, moveRow_version, (hcall w').2.1, (hcall w').2.2]
    refine ⟨hid, hxid, ?_⟩
    unfold OpenTransfer.moveRow OpenTransfer.moveWrite
    rw [hid]
    split
    · have haggregate : r.aggregateId = w'.event.aggregateId := congrArg Prod.snd hstream
      exact ⟨congrArg (Prod.mk t.destination) haggregate, hversion⟩
    · exact ⟨hstream, hversion⟩
  · refine List.pairwise_map.2 (h.ids.imp fun hne => ?_)
    rw [(hcall _).2.1, (hcall _).2.1]
    exact hne

/-- The transfer leaves alone the predecessors that were looked up for these events. -/
def KeepsPredecessors (t : OpenTransfer) (rows : List EventRow) (evs : List EventToAppend) : Prop :=
  ∀ ev ∈ evs, ev.expectedVersion ≠ 0 → ∀ p ∈ rows, p.stream = ev.stream → t.moveRow p = p

theorem KeepsPredecessors.precedes {rows : List EventRow} {evs : List EventToAppend} {ev : EventToAppend}
    {p : EventRow} (h : KeepsPredecessors t rows evs) (hev : ev ∈ evs) (hne : ev.expectedVersion ≠ 0)
    (hp : p ∈ rows) (hpre : Store.Precedes p ev) : p ∈ rows.map t.moveRow :=
  List.mem_map.2 ⟨p, hp, h ev hev hne p hp hpre.1⟩

theorem Fed.moved {rows : List EventRow} {evs : List EventToAppend} (h : Fed rows evs)
    (hk : KeepsPredecessors t rows evs) : Fed (rows.map t.moveRow) evs := by
  intro ev hev
  obtain ⟨hpos, hfed⟩ := h ev hev
  refine ⟨hpos, ?_⟩
  rcases hfed with hzero | ⟨p, hp, hpre⟩ | hlist
  · exact .inl hzero
  · rcases eq_or_ne ev.expectedVersion 0 with hzero | hne
    · exact .inl hzero
    · exact .inr (.inl ⟨p, hk.precedes hev hne hp hpre, hpre⟩)
  · exact .inr (.inr hlist)

/-- What a call has looked up is still so after the transfer. -/
theorem ok_moved {rows : List EventRow} {phase : CallPhase} (h : phase.Ok True rows)
    (hk : KeepsPredecessors t rows phase.checked) : phase.Ok True (rows.map t.moveRow) := by
  cases phase with
  | predecessors first others groups =>
    refine ⟨h.1, h.2.1, fun g hg => ?_⟩
    rcases h.2.2 g hg with hm | hzero | ⟨r, hr, hstream, hversion⟩
    · exact .inl hm
    · exact .inr (.inl hzero)
    · rcases eq_or_ne g.minExpected 0 with hzero | hne
      · exact .inr (.inl hzero)
      · -- the least expected version of the group is that of one of its events
        obtain ⟨stream, hmem, rfl⟩ := List.mem_map.1 hg
        obtain ⟨ev, hev, hevs⟩ := mem_batchStreams.1 hmem
        obtain ⟨-, em, hem, hmin⟩ := minExpected_spec (mem_eventsOfStream.2 ⟨hev, hevs⟩)
        obtain ⟨hem, hems⟩ := mem_eventsOfStream.1 hem
        have hsame := hk em hem (hmin ▸ hne) r hr (hstream.trans hems.symm)
        exact .inr (.inr ⟨r, List.mem_map.2 ⟨r, hr, hsame⟩, hstream, hversion⟩)
  | duplicates first others => exact ⟨h.1, Fed.moved h.2 hk⟩
  | claim w | seedCheck w | gate w =>
    refine ⟨h.1, fun hb => ?_⟩
    have hchecked : KeepsPredecessors t rows w.events := by
      simpa only [CallPhase.checked, hb, if_true] using hk
    exact Fed.moved (h.2 hb) hchecked
  | draw w rest => exact ⟨h.1, Fed.moved h.2 hk⟩
  | place w id ev rest =>
    refine ⟨h.1, Fed.moved h.2.1 hk, fun _ => ?_⟩
    rcases h.2.2 trivial with hzero | ⟨p, hp, hpre, hlt⟩
    · exact .inl hzero
    · rcases eq_or_ne ev.expectedVersion 0 with hzero | hne
      · exact .inl hzero
      · exact .inr ⟨p, KeepsPredecessors.precedes hk (.head _) hne hp hpre, hpre, hlt⟩
  | archiveCheck | streamVersion | conflicted | commit => trivial

theorem view_moved (markers : List String) (k : ℕ) :
    (moved st t markers).view k = (st.view k).map t.moveRow := by
  have hcongr : ∀ r : EventRow, decide ((r.xid ∈ st.log.xacts.committed ∨ (st.sessions k).xid = some r.xid) ∧
      r.id ∉ st.log.pruned) = ((fun r : EventRow => decide ((r.xid ∈ st.log.xacts.committed ∨
        (st.sessions k).xid = some r.xid) ∧ r.id ∉ st.log.pruned)) ∘ t.moveRow) r := fun r => by
    simp only [Function.comp_apply, moveRow_id, moveRow_xid]
  unfold Store.view
  rw [show (moved st t markers).log.rows = st.log.rows.map t.moveRow from rfl, List.filter_map]
  exact congrArg (List.map t.moveRow) (List.filter_congr fun r _ => (hcongr r).symm)

/-- A transfer of whole streams keeps the streams in order. -/
theorem streamInv_moved (h : Store.StreamInv True s.store) (ho : OpenOk s.store t) (hw : s.MovesWhole t)
    (markers : List String) : Store.StreamInv True (moved s.store t markers) := by
  have hrow : ∀ {r}, r ∈ (moved s.store t markers).log.rows → ∃ r' ∈ s.store.log.rows, t.moveRow r' = r :=
    fun hr => List.mem_map.1 hr
  have hsame : ∀ {r}, r ∈ s.store.log.rows → r.id ∈ t.ids → r.stream = (t.source, r.aggregateId) :=
    fun hr hid => congrArg (Prod.mk · _) (ho.source _ hr hid)
  refine ⟨fun r hr r' hr' hab hab' hstream hversion => ?_, fun r hr => ?_, fun r hr hab => ?_, fun k c hc => ?_⟩
  · obtain ⟨q, hq, rfl⟩ := hrow hr
    obtain ⟨q', hq', rfl⟩ := hrow hr'
    rw [moveRow_xid] at hab hab'
    rw [moveRow_version, moveRow_version] at hversion
    refine congrArg t.moveRow ?_
    rcases Classical.em (q.id ∈ t.ids) with hid | hid
    · rcases Classical.em (q'.id ∈ t.ids) with hid' | hid'
      · refine h.unique q hq q' hq' hab hab' ?_ hversion
        rw [moveRow_of_mem hid, moveRow_of_mem hid'] at hstream
        have haggregate : q.aggregateId = q'.aggregateId := congrArg Prod.snd hstream
        rw [hsame hq hid, hsame hq' hid', haggregate]
      · exfalso
        rw [moveRow_of_not_mem hid'] at hstream
        have hne : q'.id ≠ q.id := fun heq => hid' (heq ▸ hid)
        exact ho.free q hq hid q' hq' hab' hne ⟨hstream, by rw [moveRow_version, hversion]⟩
    · rw [moveRow_of_not_mem hid] at hstream
      rcases Classical.em (q'.id ∈ t.ids) with hid' | hid'
      · exfalso
        have hne : q.id ≠ q'.id := fun heq => hid (heq ▸ hid')
        exact ho.free q' hq' hid' q hq hab hne ⟨hstream.symm, by rw [moveRow_version, hversion]⟩
      · rw [moveRow_of_not_mem hid'] at hstream
        exact h.unique q hq q' hq' hab hab' hstream hversion
  · obtain ⟨q, hq, rfl⟩ := hrow hr
    rw [moveRow_version]
    exact h.pos q hq
  · obtain ⟨q, hq, rfl⟩ := hrow hr
    rw [moveRow_xid] at hab
    rcases h.pred q hq hab with hfirst | ⟨p, hp, hstream, hversion, hxid, hlt⟩ | ⟨hasc, -⟩
    · exact .inl ((moveRow_version t q).trans hfirst)
    · -- a version and its predecessor move together, or both stay
      have hpab : ¬ s.store.log.xacts.Aborted p.xid := by
        rcases hxid with hc | he
        · exact fun hab => hab.2.2 hc
        · rwa [he]
      refine .inr (.inl ⟨t.moveRow p, List.mem_map_of_mem hp, ?_, ?_, ?_, ?_⟩)
      · rcases Classical.em (q.id ∈ t.ids) with hid | hid
        · have hpid := hw.rows p hp hpab ⟨q, hq, hid, hstream.symm⟩
          have haggregate : p.aggregateId = q.aggregateId := congrArg Prod.snd hstream
          rw [moveRow_of_mem hid, moveRow_of_mem hpid, haggregate]
        · have hpid : p.id ∉ t.ids := fun hpid => hid (hw.rows q hq hab ⟨p, hp, hpid, hstream⟩)
          rw [moveRow_of_not_mem hid, moveRow_of_not_mem hpid, hstream]
      · rw [moveRow_version, moveRow_version, hversion]
      · rw [moveRow_xid, moveRow_xid]
        exact hxid
      · rw [moveRow_id, moveRow_id]
        exact hlt
    · exact (hasc trivial).elim
  · rw [view_moved]
    refine ok_moved (h.phase k c hc) fun ev hev hne p hp hstream => moveRow_of_not_mem fun hid => ?_
    exact hw.calls k c hc ev hev hne ⟨p, (Store.mem_view.1 hp).1, hid, hstream⟩

/-! ### Beside a writer's step -/

/-- A writer has gone on: the rows are those there were, and one at most is new and keeps clear of the
transfers in progress. -/
structure Grows (s : EventTable) (st : Store) : Prop where
  xacts : s.store.log.xacts.Ext st.log.xacts
  kept : ∀ r ∈ s.store.log.rows, r ∈ st.log.rows
  added : ∀ r ∈ st.log.rows, r ∈ s.store.log.rows ∨ (∀ q ∈ s.store.log.rows, q.id ≠ r.id) ∧
    ∀ q ∈ s.heldRows, ¬ (q.stream = r.stream ∧ q.version = r.version)

theorem mem_heldRows (ht : t ∈ s.transfers) (hm : m ∈ s.store.log.rows) (hid : m.id ∈ t.ids) :
    m ∈ s.heldRows ∧ t.moveRow m ∈ s.heldRows := by
  have hm' : m ∈ s.store.log.rows.filter (·.id ∈ t.ids) := List.mem_filter.2 ⟨hm, by simpa using hid⟩
  unfold heldRows
  exact ⟨List.mem_flatMap.2 ⟨t, ht, List.mem_flatMap.2 ⟨m, hm', .head _⟩⟩,
    List.mem_flatMap.2 ⟨t, ht, List.mem_flatMap.2 ⟨m, hm', .tail _ (.head _)⟩⟩⟩

/-- A writer that does not wait for a transfer keeps clear of it. -/
theorem grows_of_step {a : StoreAct} (hs : s.store.step a = some st)
    (hw : ¬ s.Waits a) : Grows s st := by
  have hext : s.store.log.Ext st.log := by
    rcases Store.StoreStep.log (.of_step hs) with heq | ⟨la, hl⟩
    · exact heq ▸ .refl _
    · exact Log.ext_step hl
  refine ⟨hext.xacts, hext.rows, fun r hr => ?_⟩
  rcases Store.step_rows hs with heq | ⟨k, now, n, w, id, ev, rest, x, _, rfl, hc, hl⟩
  · exact .inl (heq ▸ hr)
  · simp only [Log.step, Option.ite_none_right_eq_some, Option.some.injEq] at hl
    obtain ⟨⟨-, -, hfresh⟩, hlog⟩ := hl
    rw [← hlog] at hr
    rcases Log.mem_insertRow.1 hr with rfl | hr
    · refine .inr ⟨hfresh, fun q hq hsame => hw ?_⟩
      simp only [Waits, hc]
      exact ⟨q, hq, .inl hsame⟩
    · exact .inl hr

theorem Grows.row_of_id (h : Grows s st) (ho : OpenOk s.store t) (hr : r ∈ st.log.rows) (hid : r.id ∈ t.ids) :
    r ∈ s.store.log.rows := by
  rcases h.added r hr with hold | ⟨hfresh, -⟩
  · exact hold
  · obtain ⟨q, hq, he⟩ := ho.known _ hid
    exact absurd he (hfresh q hq)

theorem Grows.openOk (h : Grows s st) (ht : t ∈ s.transfers) (ho : OpenOk s.store t) : OpenOk st t where
  known id hid := by
    obtain ⟨r, hr, he⟩ := ho.known id hid
    exact ⟨r, h.kept r hr, he⟩
  source r hr hid := ho.source r (h.row_of_id ho hr hid) hid
  free m hm hid r hr hab hne hplace := by
    have hm := h.row_of_id ho hm hid
    rcases h.added r hr with hold | ⟨-, hclear⟩
    · exact ho.free m hm hid r hold (fun hab' => hab (hab'.ext h.xacts)) hne hplace
    · exact hclear _ (mem_heldRows ht hm hid).2 hplace

theorem Grows.apart (h : Grows s st) (ho : OpenOk s.store t) (ho' : OpenOk s.store t')
    (ha : Apart s.store t t') : Apart st t t' :=
  ⟨ha.ids, fun m hm hid m' hm' hid' =>
    ha.places m (h.row_of_id ho hm hid) hid m' (h.row_of_id ho' hm' hid') hid'⟩

/-! ### A transfer begins -/

theorem mem_movableRows {args : TransferArgs} : r ∈ s.movableRows args ↔
    (r ∈ s.store.log.rows ∧ s.store.log.Visible r) ∧ r.tenantId = args.sourceTenantId ∧
      r.aggregateType = args.aggregateType ∧ r.aggregateId ∈ args.aggregateIds := by
  simp only [movableRows, List.mem_filter, Log.mem_visibleRows, decide_eq_true_eq]

theorem movable_of_id {args : TransferArgs} (hw : s.store.log.WF) (hr : r ∈ s.store.log.rows)
    (hid : r.id ∈ (s.transferOf args).ids) : r ∈ s.movableRows args := by
  obtain ⟨q, hq, he⟩ := List.mem_map.1 hid
  have hsame := hw.id_inj (mem_movableRows.1 hq).1.1 hr he
  exact hsame ▸ hq

theorem openOk_transferOf {args : TransferArgs} (hi : Store.SessionInv s.store) (hw : ¬ s.TransferWaits args)
    (hv : ¬ s.TransferViolates args) : OpenOk s.store (s.transferOf args) where
  known id hid := by
    obtain ⟨r, hr, he⟩ := List.mem_map.1 hid
    exact ⟨r, (mem_movableRows.1 hr).1.1, he⟩
  source r hr hid := (mem_movableRows.1 (movable_of_id hi.log hr hid)).2.1
  free m hm hid r hr hab hne hplace := by
    have hmov := movable_of_id hi.log hm hid
    rcases Xacts.trichotomy (hi.log.xid_lt hr) with hrun | hcom | habort
    · have hrunning : r ∈ s.store.log.rows.filter (·.xid ∈ s.store.log.xacts.running) :=
        List.mem_filter.2 ⟨hr, by simpa using hrun⟩
      exact hw ⟨m, hmov, .inr ⟨r, List.mem_append_right _ hrunning, .inl hplace⟩⟩
    · have hvisible : r ∈ s.store.log.visibleRows :=
        Log.mem_visibleRows.2 ⟨hr, hcom, by simp [hi.pruned]⟩
      exact hv ⟨m, hmov, r, hvisible, hne, .inl hplace⟩
    · exact hab habort

theorem apart_transferOf {args : TransferArgs} (hi : Store.SessionInv s.store) (hw : ¬ s.TransferWaits args)
    (ht : t ∈ s.transfers) : Apart s.store (s.transferOf args) t where
  ids id hid hid' := by
    obtain ⟨r, hr, rfl⟩ := List.mem_map.1 hid
    exact hw ⟨r, hr, .inl ⟨t, ht, hid'⟩⟩
  places m hm hid m' hm' hid' hplace :=
    hw ⟨m, movable_of_id hi.log hm hid, .inr ⟨_, List.mem_append_left _ (mem_heldRows ht hm' hid').2, .inl hplace⟩⟩

/-! ### A transfer commits -/

theorem mem_rows_moved {markers : List String} :
    r ∈ (moved st t markers).log.rows ↔ ∃ q ∈ st.log.rows, t.moveRow q = r := List.mem_map

theorem Apart.row_moved {markers : List String} (ha : Apart st t t') (hr : r ∈ (moved st t markers).log.rows)
    (hid : r.id ∈ t'.ids) : r ∈ st.log.rows := by
  obtain ⟨q, hq, rfl⟩ := mem_rows_moved.1 hr
  rw [moveRow_id] at hid
  rwa [moveRow_of_not_mem fun hid' => ha.ids _ hid' hid]

/-- The other transfers keep clear of the one that commits. -/
theorem openOk_moved {markers : List String} (ha : Apart st t t') (ho : OpenOk st t') :
    OpenOk (moved st t markers) t' where
  known id hid := by
    obtain ⟨r, hr, rfl⟩ := ho.known id hid
    exact ⟨t.moveRow r, mem_rows_moved.2 ⟨r, hr, rfl⟩, moveRow_id t r⟩
  source r hr hid := ho.source r (ha.row_moved hr hid) hid
  free m hm hid r hr hab hne hplace := by
    have hm := ha.row_moved hm hid
    obtain ⟨q, hq, rfl⟩ := mem_rows_moved.1 hr
    rw [moveRow_xid] at hab
    rw [moveRow_id] at hne
    rcases Classical.em (q.id ∈ t.ids) with hq' | hq'
    · exact ha.places q hq hq' m hm hid ⟨hplace.1.symm, hplace.2.symm⟩
    · rw [moveRow_of_not_mem hq'] at hplace
      exact ho.free m hm hid q hq hab hne hplace

theorem apart_moved {markers : List String} {t'' : OpenTransfer} (ha : Apart st t t') (ha' : Apart st t t'')
    (hb : Apart st t' t'') : Apart (moved st t markers) t' t'' :=
  ⟨hb.ids, fun m hm hid m' hm' hid' => hb.places m (ha.row_moved hm hid) hid m' (ha'.row_moved hm' hid') hid'⟩

/-! ### Every step -/

theorem tableInv_initial : TableInv initial where
  sessions := Store.sessionInv_initial
  streams := Store.streamInv_initial True
  opened _ ht := nomatch ht
  apart := .nil

/-- A transfer that ends leaves the others. -/
theorem TableInv.apart_erase (h : TableInv s) (ht : t ∈ s.transfers) :
    (∀ t' ∈ s.transfers.erase t, Apart s.store t t') ∧ (s.transfers.erase t).Pairwise (Apart s.store) :=
  List.pairwise_cons.1 (h.apart.perm (List.perm_cons_erase ht) fun hab => hab.symm)

theorem TableInv.step {a : TableAct} (h : TableInv s) (ha : s.TableOk a) (hs : s.step a = some s') :
    TableInv s' := by
  cases a with
  | store a =>
    simp only [EventTable.step, Option.ite_none_left_eq_some, Option.map_eq_some_iff] at hs
    obtain ⟨hw, st, hst, rfl⟩ := hs
    have hg := grows_of_step hst hw
    refine ⟨h.sessions.step (.of_step hst), h.streams.step h.sessions (fun _ => ha) (.of_step hst),
      fun t ht => hg.openOk ht (h.opened t ht), ?_⟩
    exact h.apart.imp_of_mem fun ht ht' hab => hg.apart (h.opened _ ht) (h.opened _ ht') hab
  | transferEventRows args =>
    simp only [EventTable.step, Option.ite_none_left_eq_some] at hs
    obtain ⟨hw, hs⟩ := hs
    split at hs
    · cases hs
      exact h
    · next hv =>
      have hopen := openOk_transferOf h.sessions hw hv
      have hclear : ∀ t ∈ s.transfers, Apart s.store (s.transferOf args) t := fun t ht =>
        apart_transferOf h.sessions hw ht
      cases hs
      refine ⟨h.sessions, h.streams, fun t ht => ?_, List.pairwise_cons.2 ⟨hclear, h.apart⟩⟩
      cases ht with
      | head => exact hopen
      | tail _ ht => exact h.opened t ht
  | commitTransfer t markers =>
    simp only [EventTable.step, Option.ite_none_right_eq_some, Option.some.injEq] at hs
    obtain ⟨ht, rfl⟩ := hs
    obtain ⟨hleft, hpair⟩ := h.apart_erase ht
    refine ⟨sessionInv_moved h.sessions t markers, streamInv_moved h.streams (h.opened t ht) ha markers,
      fun t' ht' => openOk_moved (hleft t' ht') (h.opened t' (List.mem_of_mem_erase ht')), ?_⟩
    exact hpair.imp_of_mem fun ht' ht'' hab => apart_moved (hleft _ ht') (hleft _ ht'') hab
  | abortTransfer t =>
    simp only [EventTable.step, Option.ite_none_right_eq_some, Option.some.injEq] at hs
    obtain ⟨ht, rfl⟩ := hs
    exact ⟨h.sessions, h.streams, fun t' ht' => h.opened t' (List.mem_of_mem_erase ht'), (h.apart_erase ht).2⟩

/-! ## Ids ascend with versions -/

/-- From a row back to the first version of its stream, ids descend with the versions. -/
theorem TableInv.id_lt (h : TableInv s) (hr : r ∈ s.store.log.rows) (hab : ¬ s.store.log.xacts.Aborted r.xid)
    (hr' : r' ∈ s.store.log.rows) (hab' : ¬ s.store.log.xacts.Aborted r'.xid) (hstream : r.stream = r'.stream)
    (hlt : r.version < r'.version) : r.id < r'.id := by
  -- induction on how far the versions are apart
  obtain ⟨n, hn⟩ : ∃ n : ℕ, r'.version = r.version + n + 1 :=
    ⟨(r'.version - r.version - 1).toNat, by omega⟩
  induction n generalizing r' with
  | zero =>
    have hpos := h.streams.pos r hr
    rcases h.streams.pred r' hr' hab' with hfirst | ⟨p, hp, hps, hpv, hpx, hpid⟩ | ⟨hasc, -⟩
    · omega
    · have hpab : ¬ s.store.log.xacts.Aborted p.xid := by
        rcases hpx with hc | he
        · exact fun hab => hab.2.2 hc
        · rwa [he]
      have hsame := h.streams.unique p hp r hr hpab hab (hps.trans hstream.symm) (by omega)
      exact hsame ▸ hpid trivial
    · exact (hasc trivial).elim
  | succ n ih =>
    have hpos := h.streams.pos r hr
    rcases h.streams.pred r' hr' hab' with hfirst | ⟨p, hp, hps, hpv, hpx, hpid⟩ | ⟨hasc, -⟩
    · omega
    · have hpab : ¬ s.store.log.xacts.Aborted p.xid := by
        rcases hpx with hc | he
        · exact fun hab => hab.2.2 hc
        · rwa [he]
      have hbefore := ih hp hpab (hstream.trans hps.symm) (by omega) (by push_cast at hn ⊢; omega)
      exact hbefore.trans (hpid trivial)
    · exact (hasc trivial).elim

/-- Where every batch is ascending and every transfer moves whole streams, a stream's ids ascend with its
versions. -/
theorem id_order_of_run (hr : Run step TableOk initial s) :
    ∀ r ∈ s.store.log.visibleRows, ∀ r' ∈ s.store.log.visibleRows, r.stream = r'.stream →
      r.version < r'.version → r.id < r'.id := by
  have h : TableInv s := hr.invariant tableInv_initial fun _ _ _ hi ha hs => hi.step ha hs
  intro r hr r' hr' hstream hlt
  obtain ⟨hr, hv⟩ := Log.mem_visibleRows.1 hr
  obtain ⟨hr', hv'⟩ := Log.mem_visibleRows.1 hr'
  exact h.id_lt hr (fun hab => hab.2.2 hv.1) hr' (fun hab => hab.2.2 hv'.1) hstream hlt

end

/-! ## Two versions of an order -/

/-- An order is written in one batch, and its tenant's orders are transferred to another tenant. -/
def orderMove (batch : List EventToAppend) : List TableAct :=
  .store (.call 0 (.appendRawBatch batch)) :: .replicate 12 (.store (.run 0 0)) ++ [.transferEventRows
    { sourceTenantId := "tenant-a", destinationTenantId := "tenant-b", aggregateType := "order",
      aggregateIds := ["a"] }]

/-- The order's first version and its second one. -/
def orderVersions : List EventToAppend := [Store.orderEvent "a" 0, Store.orderEvent "a" 1]

/-- The batch is ascending and the order has moved as a whole. -/
theorem id_order_of_run_orderMove : ∃ s, Run step TableOk initial s ∧
    s.store.log.visibleRows.map (fun r => (r.stream, r.version, r.id)) =
      [(("tenant-b", "a"), 1, 1), (("tenant-b", "a"), 2, 2)] ∧
    ∀ r ∈ s.store.log.visibleRows, ∀ r' ∈ s.store.log.visibleRows, r.stream = r'.stream →
      r.version < r'.version → r.id < r'.id := by
  obtain ⟨s, hs⟩ : ∃ s, exec step initial (orderMove orderVersions) = some s :=
    Option.isSome_iff_exists.1 (by decide +kernel)
  let okb : EventTable → TableAct → Bool := fun _ a => match a with
    | .store a => decide (Store.BatchAscending a)
    | .commitTransfer _ _ => false
    | _ => true
  have hok : ∀ s a, okb s a = true → s.TableOk a := fun s a h => by
    cases a with
    | store a =>
      have hb : Store.BatchAscending a := of_decide_eq_true h
      exact hb
    | commitTransfer => cases h
    | transferEventRows | abortTransfer => trivial
  have hr : Run step TableOk initial s := .of_execOk hok (by decide +kernel) hs
  -- what the transfer finds: both rows, and no call in progress
  let t : OpenTransfer := ⟨"tenant-a", "tenant-b", [1, 2]⟩
  have hopen : s.transfers = [t] := by
    have h : (exec step initial (orderMove orderVersions)).map (·.transfers) = some [t] := by decide +kernel
    rw [hs] at h
    exact Option.some.inj h
  have hids : ∀ r ∈ s.store.log.rows, r.id ∈ t.ids := by
    have h : (exec step initial (orderMove orderVersions)).all fun s =>
      s.store.log.rows.all (·.id ∈ t.ids) := by decide +kernel
    simpa [hs] using h
  have hcalls : ∀ k, (s.store.sessions k).call = none := fun k => by
    have h : (exec step initial (orderMove orderVersions)).map (fun s => (s.store.sessions k).call) =
        some none := by
      cases k with
      | zero => rfl
      | succ k => rfl
    rw [hs] at h
    exact Option.some.inj h
  have hwhole : s.TableOk (.commitTransfer t ["order"]) :=
    ⟨fun r hr _ _ => hids r hr, fun k c hc => by rw [hcalls k] at hc; cases hc⟩
  obtain ⟨s', hs'⟩ : ∃ s', s.step (.commitTransfer t ["order"]) = some s' :=
    ⟨_, if_pos (hopen ▸ .head _)⟩
  have hr' : Run step TableOk initial s' := .next hr hwhole hs'
  refine ⟨s', hr', ?_, id_order_of_run hr'⟩
  have h : ((exec step initial (orderMove orderVersions)).bind (·.step (.commitTransfer t ["order"]))).map
      (fun s => s.store.log.visibleRows.map fun r => (r.stream, r.version, r.id)) =
      some [(("tenant-b", "a"), 1, 1), (("tenant-b", "a"), 2, 2)] := by decide +kernel
  rw [hs, Option.bind_some, hs'] at h
  exact Option.some.inj h

/-- A batch that lists the second version first gives it the lower id. -/
theorem not_id_order : ¬ ∀ s, Run step (fun _ _ => True) initial s →
    ∀ r ∈ s.store.log.visibleRows, ∀ r' ∈ s.store.log.visibleRows, r.stream = r'.stream →
      r.version < r'.version → r.id < r'.id := fun h => by
  have ⟨s, hr, hs⟩ := exists_run_of_exec step initial (orderMove orderVersions.reverse)
    (fun s => decide (∃ r ∈ s.store.log.visibleRows, ∃ r' ∈ s.store.log.visibleRows,
      r.stream = r'.stream ∧ r.version < r'.version ∧ ¬ r.id < r'.id)) (by decide +kernel)
  obtain ⟨r, hv, r', hv', hstream, hlt, hid⟩ := of_decide_eq_true hs
  exact hid (h s hr r hv r' hv' hstream hlt)

end EventTable

end Kumiko
