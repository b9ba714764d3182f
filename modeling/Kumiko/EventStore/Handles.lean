import Kumiko.EventStore.SessionSteps
import Kumiko.EventStore.Versions

/-!
# Handles for writing

`fetchForWriting` reads a stream once and hands out a handle with its events and version. Every `appendOne` pins
the version the handle has, and a settled append moves it on by one without another read. An insert by an append
of a handle finds exactly the rows of the read and the handle's own settled appends in the stream
(`appends_conditional`). What the handler gets as `events` leaves out those of another aggregate type, and all
of an archived stream.
-/

namespace Kumiko

open Transition

/-! ## Handles -/

/-- The events of a stream for a handle, and the version of the stream. The rows are those of one
statement. Reference: `loadAggregateForWriting` (`event-store/event-store.ts`). -/
def loadAggregateForWriting (rows : List EventRow) (stream : String × String)
    (aggregateType : String) (isArchived : Bool) : List EventRow × ℤ :=
  if isArchived then ([], Store.streamMaxVersion rows stream)
  else
    let all := (rows.filter (·.stream = stream)).insertionSort (·.version ≤ ·.version)
    (all.filter (·.aggregateType = aggregateType), (all.getLast?.map (·.version)).getD 0)

/-- An `appendOne` whose call has begun, until its promise settles. -/
structure PendingAppend where
  /-- The number of the call. -/
  number : ℕ
  event : EventToAppend

/-- A handle. Reference: `AggregateStreamHandle` and the closure of `buildFetchForWriting`
(`pipeline/handler-context-events.ts`). -/
structure StreamHandle where
  /-- The client, and whether the handle's runner is the client's transaction or the pool. -/
  session : ℕ
  inTx : Bool
  tenantId : String
  aggregateId : String
  aggregateType : String
  events : List EventRow
  /-- `handleVersion`. -/
  version : ℤ
  /-- The appends whose version is pinned and whose call has not begun. -/
  pinned : List EventToAppend
  calls : List PendingAppend
  /-- The rows of the stream in the read, of whatever type, and the version that came with them. -/
  loaded : List EventRow
  loadedVersion : ℤ
  /-- The rows of the appends that have settled without an error, in this order. -/
  appended : List Written

/-- The stream of the handle. -/
def StreamHandle.stream (h : StreamHandle) : String × String := (h.tenantId, h.aggregateId)

/-- The event of an `appendOne` waits with the version that the handle has now. -/
def StreamHandle.pin (h : StreamHandle) (type : String) (createdAt : Option ℕ) : StreamHandle :=
  let ev : EventToAppend :=
    { tenantId := h.tenantId, aggregateType := h.aggregateType, aggregateId := h.aggregateId,
      expectedVersion := h.version, type, idempotencyKey := none, createdAt }
  { h with pinned := h.pinned ++ [ev] }

/-- A `fetchForWriting` between its two statements. -/
structure Loading where
  session : ℕ
  inTx : Bool
  tenantId : String
  aggregateId : String
  aggregateType : String
  expectedVersion : Option ℤ
  /-- What `isStreamArchived` has said. -/
  isArchived : Bool

/-- The stream that is loaded. -/
def Loading.stream (l : Loading) : String × String := (l.tenantId, l.aggregateId)

/-- A handler's variable for a handle. -/
inductive HandleSlot
  | closed
  | loading (l : Loading)
  | opened (h : StreamHandle)

/-- The slot's runner is a transaction of the client. -/
def HandleSlot.UsesTxOf (k : ℕ) : HandleSlot → Prop
  | .closed => False
  | .loading l => l.session = k ∧ l.inTx = true
  | .opened h => h.session = k ∧ h.inTx = true

instance (k : ℕ) (slot : HandleSlot) : Decidable (slot.UsesTxOf k) := by
  unfold HandleSlot.UsesTxOf
  split <;> infer_instance

/-- The store and the handles on it. -/
structure HandleStore where
  store : Store
  handles : ℕ → HandleSlot

/-- A step of the store or of a handle. -/
inductive HandleAct
  /-- Any step of the store, also the next statement of a handle's append. -/
  | store (a : StoreAct)
  /-- `isStreamArchived` of a `fetchForWriting`. -/
  | fetchForWriting (i k : ℕ) (tenantId aggregateId aggregateType : String)
      (expectedVersion : Option ℤ)
  /-- The read of a `fetchForWriting`. -/
  | read (i : ℕ)
  /-- `appendOne` is called. -/
  | appendOne (i : ℕ) (type : String) (createdAt : Option ℕ)
  /-- The first pinned append fails a check that comes before its first statement. -/
  | refuse (i : ℕ)
  /-- The call of the first pinned append begins. -/
  | start (i : ℕ)
  /-- The append's promise settles. Its row may be there and an inline projection have thrown. -/
  | settle (i number : ℕ) (projected : Bool)

namespace HandleStore

/-- An empty table and no handle. -/
def initial : HandleStore := { store := .initial, handles := fun _ => .closed }

/-- A handle changes. -/
def setHandle (s : HandleStore) (i : ℕ) (slot : HandleSlot) : HandleStore :=
  { s with handles := Function.update s.handles i slot }

/-- The client's transaction is over, and with it the handles that use it. -/
def closeHandles (handles : ℕ → HandleSlot) (k : ℕ) : ℕ → HandleSlot := fun i =>
  if (handles i).UsesTxOf k then .closed else handles i

/-- The handles after a step of the store. -/
def handlesAfter (handles : ℕ → HandleSlot) : StoreAct → ℕ → HandleSlot
  | .commit k | .rollback k => closeHandles handles k
  | _ => handles

/-- The rows that a statement of the runner sees. -/
def runnerRows (s : Store) (k : ℕ) (inTx : Bool) : List EventRow :=
  if inTx then s.view k else s.log.visibleRows

/-- The runner can execute a statement: it is the one that the slot was made with, it has none in
progress and no error has aborted its transaction. -/
def RunnerReady (s : Store) (k : ℕ) (inTx : Bool) : Prop :=
  (s.sessions k).call = none ∧ (s.sessions k).failed = false ∧ (s.sessions k).inTx = inTx

instance (s : Store) (k : ℕ) (inTx : Bool) : Decidable (RunnerReady s k inTx) :=
  inferInstanceAs (Decidable (_ ∧ _ ∧ _))

/-- The handle of a read, or nothing where the caller expects another version. -/
def openHandle (s : Store) (l : Loading) : HandleSlot :=
  let rows := runnerRows s l.session l.inTx
  let (events, streamVersion) := loadAggregateForWriting rows l.stream l.aggregateType l.isArchived
  if l.expectedVersion.any (· ≠ streamVersion) then .closed
  else .opened
    { session := l.session, inTx := l.inTx, tenantId := l.tenantId, aggregateId := l.aggregateId,
      aggregateType := l.aggregateType, events, version := streamVersion, pinned := [], calls := [],
      loaded := rows.filter (·.stream = l.stream), loadedVersion := streamVersion, appended := [] }

/-- The append of the call settles. -/
def settleCall (s : Store) (h : StreamHandle) (n : ℕ) (projected : Bool) : Option StreamHandle :=
  let rest := h.calls.filter (·.number ≠ n)
  if ∃ f ∈ s.failures, f.call = n then some { h with calls := rest }
  else (s.writes.find? (·.call = n)).map fun w =>
    if projected then
      { h with calls := rest, version := h.version + 1, appended := h.appended ++ [w] }
    else { h with calls := rest }

/-- One step. -/
def step (s : HandleStore) : HandleAct → Option HandleStore
  | .store a => (s.store.step a).map fun store => { store, handles := handlesAfter s.handles a }
  | .fetchForWriting i k tenantId aggregateId aggregateType expectedVersion =>
    let inTx := (s.store.sessions k).inTx
    match s.handles i with
    | .closed =>
      if RunnerReady s.store k inTx ∧ aggregateType ≠ "" then
        some (s.setHandle i (.loading
          { session := k, inTx, tenantId, aggregateId, aggregateType, expectedVersion,
            isArchived := decide ((tenantId, aggregateId) ∈ s.store.archived) }))
      else none
    | _ => none
  | .read i =>
    match s.handles i with
    | .loading l =>
      if RunnerReady s.store l.session l.inTx then
        some (s.setHandle i (openHandle s.store l))
      else none
    | _ => none
  | .appendOne i type createdAt =>
    match s.handles i with
    | .opened h => some (s.setHandle i (.opened (h.pin type createdAt)))
    | _ => none
  | .refuse i =>
    match s.handles i with
    | .opened h => some (s.setHandle i (.opened { h with pinned := h.pinned.tail }))
    | _ => none
  | .start i =>
    match s.handles i with
    | .opened h =>
      match h.pinned with
      | [] => none
      | ev :: rest =>
        if RunnerReady s.store h.session h.inTx then
          (s.store.step (.call h.session (.appendDomainEvent ev (some ev.expectedVersion)))).map
            fun store => { store, handles := Function.update s.handles i (.opened
              { h with pinned := rest, calls := ⟨s.store.nextCall, ev⟩ :: h.calls }) }
        else none
    | _ => none
  | .settle i n projected =>
    match s.handles i with
    | .opened h =>
      if n ∈ h.calls.map (·.number) ∧
          ((s.store.sessions h.session).call.map (·.number) ≠ some n) then
        (settleCall s.store h n projected).map fun h' => s.setHandle i (.opened h')
      else none
    | _ => none

end HandleStore

/-! ## The read -/

section
variable {rows : List EventRow} {stream : String × String}

/-- The version that comes with the events is the number of rows the stream has. -/
theorem loadAggregateForWriting_version (h : Contiguous (Store.streamVersions rows stream))
    (aggregateType : String) (isArchived : Bool) :
    (loadAggregateForWriting rows stream aggregateType isArchived).2 =
      (Store.streamVersions rows stream).length := by
  cases isArchived with
  | true => exact h.max?_getD
  | false =>
    set all := (rows.filter (·.stream = stream)).insertionSort (·.version ≤ ·.version)
    have hperm : (all.map (·.version)).Perm (Store.streamVersions rows stream) :=
      (List.perm_insertionSort _ _).map _
    have : Std.Total fun a b : EventRow => a.version ≤ b.version := ⟨fun a b => le_total _ _⟩
    have : IsTrans EventRow fun a b => a.version ≤ b.version := ⟨fun a b c => le_trans⟩
    have hsorted : all.Pairwise fun a b : EventRow => a.version ≤ b.version :=
      List.pairwise_insertionSort _ _
    change (all.getLast?.map (·.version)).getD 0 = _
    rw [← hperm.length_eq, List.length_map]
    clear_value all
    cases hlast : all.getLast? with
    | none => simp [List.getLast?_eq_none_iff.1 hlast]
    | some last =>
      obtain ⟨init, rfl⟩ := List.getLast?_eq_some_iff.1 hlast
      have mem : ∀ v : ℤ, v ∈ (init ++ [last]).map (·.version) ↔ 1 ≤ v ∧ v ≤ (init ++ [last]).length := by
        intro v
        rw [hperm.mem_iff, h.mem_iff, ← hperm.length_eq, List.length_map]
      have hle := ((mem last.version).1 (by simp)).2
      obtain ⟨r, hr, hv⟩ := List.mem_map.1 ((mem _).2 ⟨by simp, le_rfl⟩)
      have hge : r.version ≤ last.version := by
        rcases List.mem_append.1 hr with hr | hr
        · exact (List.pairwise_append.1 hsorted).2.2 r hr last (.head _)
        · exact (List.mem_singleton.1 hr) ▸ le_rfl
      exact le_antisymm hle (hv ▸ hge)

end

/-! ## What a handle relies on -/

/-- The rows of the stream that the handle's client sees are the given ones and those of the
handle's settled appends. -/
def WholeStream (s : Store) (h : StreamHandle) (rows : List EventRow) : Prop :=
  ∀ r, r ∈ s.view h.session ∧ r.stream = h.stream ↔
    r ∈ rows ∨ r ∈ s.log.rows ∧ r.id ∈ h.appended.map (·.id)

/-- The versions of consecutive events after a version. -/
def consecutive (version : ℤ) (n : ℕ) : List ℤ := (List.range n).map fun i : ℕ => version + i + 1

theorem consecutive_succ (version : ℤ) (n : ℕ) :
    consecutive version (n + 1) = consecutive version n ++ [version + n + 1] := by
  simp [consecutive, List.range_succ]

/-- The row of the transaction is committed, or belongs to the handle's transaction unless an error
has aborted that. -/
def Held (s : Store) (h : StreamHandle) (x : ℕ) : Prop :=
  x ∈ s.log.xacts.committed ∨
    h.inTx = true ∧ ((s.sessions h.session).failed = true ∨ (s.sessions h.session).xid = some x)

/-- The call is in progress. -/
def InProgress (s : Store) (h : StreamHandle) (n : ℕ) : Prop :=
  ∃ o, (s.sessions h.session).call = some o ∧ o.number = n

/-- What is so of a call of a handle. -/
structure CallOk (s : Store) (h : StreamHandle) (c : PendingAppend) : Prop where
  lt : c.number < s.nextCall
  stream : c.event.stream = h.stream
  le : c.event.expectedVersion ≤ h.version
  /-- The call is in progress only at the handle's client, on the handle's runner. -/
  own : ∀ k o, (s.sessions k).call = some o → o.number = c.number →
    k = h.session ∧ o.phase.Carries c.event ∧ (s.sessions k).inTx = h.inTx
  /-- A row of the call is the event's, and stays if the call does not fail. -/
  row : ∀ w ∈ s.writes, w.call = c.number → w.event = c.event ∧
    ((∃ f ∈ s.failures, f.call = c.number) ∨ Held s h w.xid ∨ InProgress s h c.number)
  /-- The handle's version has not moved since the row was inserted. -/
  current : ∀ w ∈ s.writes, w.call = c.number → (∀ f ∈ s.failures, f.call ≠ c.number) →
    c.event.expectedVersion = h.version

/-- What is so of a handle. -/
structure HandleOk (s : Store) (h : StreamHandle) : Prop where
  inTx : h.inTx = true → (s.sessions h.session).inTx = true
  version : h.version = h.loadedVersion + h.appended.length
  nonneg : 0 ≤ h.loadedVersion
  loaded : ∀ r ∈ h.loaded, r ∈ s.log.rows ∧ r.stream = h.stream ∧ Held s h r.xid
  covers : ∀ v, 1 ≤ v → v ≤ h.loadedVersion → ∃ r ∈ h.loaded, r.version = v
  appended : ∀ w ∈ h.appended, w ∈ s.writes ∧ w.event.stream = h.stream ∧ Held s h w.xid
  versions : h.appended.map (·.event.newVersion) = consecutive h.loadedVersion h.appended.length
  pinned : ∀ ev ∈ h.pinned, ev.stream = h.stream ∧ ev.expectedVersion ≤ h.version
  calls : ∀ c ∈ h.calls, CallOk s h c
  /-- At most one call has a row and has not settled. -/
  single : ∀ c ∈ h.calls, ∀ c' ∈ h.calls, ∀ w ∈ s.writes, ∀ w' ∈ s.writes, w.call = c.number →
    w'.call = c'.number → (∀ f ∈ s.failures, f.call ≠ c.number) →
    (∀ f ∈ s.failures, f.call ≠ c'.number) → c.number = c'.number

section
variable {s s' : Store} {a : StoreAct} {h : StreamHandle} {x : ℕ}
  {r : EventRow}

/-- What a handle holds it goes on holding, as long as its transaction is not over. -/
theorem Held.step (hx : Held s h x) (htx : h.inTx = true → (s.sessions h.session).inTx = true)
    (ht : Store.TxInv s) (he : s.log.Ext s'.log) (hs : Store.SessionStep s s' h.session a)
    (hend : h.inTx = true → a ≠ .commit h.session ∧ a ≠ .rollback h.session) : Held s' h x := by
  rcases hx with hx | ⟨hi, hx⟩
  · exact .inl (he.xacts.committed x hx)
  · refine .inr ⟨hi, ?_⟩
    cases hs with
    | goesOn hg => exact hx.imp (fun hf => hg.failed.trans hf) (hg.xid x)
    | begins hn =>
      rw [htx hi] at hn
      cases hn
    | ends ha => exact absurd ha (not_or.2 (hend hi))
    | @written _ o hc hp =>
      obtain ⟨m, phase⟩ := o
      obtain rfl : phase = .commit := hp
      have := ht.commit _ _ hc
      rw [htx hi] at this
      cases this
    | raises hc hf hσ =>
      rw [hσ]
      exact .inl (htx hi)

theorem inTx_step (htx : h.inTx = true → (s.sessions h.session).inTx = true) (ht : Store.TxInv s)
    (hs : Store.SessionStep s s' h.session a)
    (hend : h.inTx = true → a ≠ .commit h.session ∧ a ≠ .rollback h.session) (hi : h.inTx = true) :
    (s'.sessions h.session).inTx = true := by
  cases hs with
  | goesOn hg => exact hg.inTx.trans (htx hi)
  | begins hn hc hσ => rw [hσ]
  | ends ha => exact absurd ha (not_or.2 (hend hi))
  | @written _ o hc hp =>
    obtain ⟨m, phase⟩ := o
    obtain rfl : phase = .commit := hp
    have := ht.commit _ _ hc
    rw [htx hi] at this
    cases this
  | raises hc hf hσ =>
    rw [hσ]
    exact htx hi

/-- A client with a transaction id sees what its handle holds. -/
theorem Held.mem_view (hx : Held s h r.xid) (hi : Store.SessionInv s) (ht : Store.TxInv s)
    (hr : r ∈ s.log.rows) (hsome : (s.sessions h.session).xid = some x) : r ∈ s.view h.session := by
  refine Store.mem_view.2 ⟨hr, ?_, by simp [hi.pruned]⟩
  rcases hx with hx | ⟨-, hf | hx⟩
  · exact .inl hx
  · rw [ht.failed _ hf] at hsome
    cases hsome
  · exact .inr hx

end

/-! ## The insert of a handle's append -/

section
variable {s : Store} {i : ℕ} {h : StreamHandle} {c : PendingAppend} {k x id : ℕ} {w : EventWrite}
  {ev : EventToAppend} {rest : List EventToAppend}

/-- The row of a settled append. -/
theorem HandleOk.appended_row (hh : HandleOk s h) (hi : Store.SessionInv s) {w : Written}
    (hw : w ∈ h.appended) : ∃ r ∈ s.log.rows, r.id = w.id ∧ r.stream = h.stream ∧
      r.version = w.event.newVersion ∧ Held s h r.xid := by
  obtain ⟨hm, hst, hx⟩ := hh.appended w hw
  obtain ⟨r, hr, hid, hxid, hs, hv⟩ := hi.row w hm
  exact ⟨r, hr, hid, hs.trans hst, hv, hxid ▸ hx⟩

/-- Every version up to the handle's is one of the read or of a settled append. -/
theorem HandleOk.row_of_version (hh : HandleOk s h) (hi : Store.SessionInv s) {v : ℤ} (h₁ : 1 ≤ v)
    (hv : v ≤ h.version) : ∃ r ∈ s.log.rows, r.stream = h.stream ∧ r.version = v ∧
      Held s h r.xid ∧ (r ∈ h.loaded ∨ r.id ∈ h.appended.map (·.id)) := by
  by_cases hle : v ≤ h.loadedVersion
  · obtain ⟨r, hr, rfl⟩ := hh.covers v h₁ hle
    obtain ⟨hm, hst, hx⟩ := hh.loaded r hr
    exact ⟨r, hm, hst, rfl, hx, .inl hr⟩
  · have hlt : (v - h.loadedVersion - 1).toNat < h.appended.length := by
      have := hh.version
      omega
    have hmem : v ∈ h.appended.map (·.event.newVersion) := by
      rw [hh.versions, consecutive, List.mem_map]
      exact ⟨_, List.mem_range.2 hlt, by omega⟩
    obtain ⟨w, hw, rfl⟩ := List.mem_map.1 hmem
    obtain ⟨r, hr, hid, hst, hrv, hx⟩ := hh.appended_row hi hw
    exact ⟨r, hr, hst, hrv, hx, .inr (hid ▸ List.mem_map_of_mem hw)⟩

/-- The append of a handle inserts its row only where the stream is what the handle has read and
appended, and then its pinned version is the handle's. -/
theorem HandleOk.insert (hh : HandleOk s h) (hi : Store.SessionInv s)
    (hstr : Store.StreamInv False s) (ht : Store.TxInv s) (hc : c ∈ h.calls)
    (hcall : (s.sessions k).call = some ⟨c.number, .place w id ev rest⟩)
    (hu : s.uniqueCheck k ev = .free) (hx : (s.sessions k).xid = some x) :
    k = h.session ∧ ev = c.event ∧ ev.expectedVersion = h.version ∧ WholeStream s h h.loaded := by
  have hok := hh.calls c hc
  obtain ⟨rfl, rfl, -⟩ := hok.own k _ hcall rfl
  have hsuffix := (hi.session h.session).phase _ hcall
  obtain ⟨rfl, rfl⟩ : ev = c.event ∧ rest = [] := by
    have hlen := hsuffix.length_le
    have hmem := hsuffix.subset (.head _)
    simp only [EventWrite.events, List.length_cons, List.length_nil, List.mem_singleton] at hlen hmem
    exact ⟨hmem, List.length_eq_zero_iff.1 (by omega)⟩
  have hbatch : (s.sessions h.session).batch = [] := by
    rw [Session.batch, hcall]
    rfl
  have hcont := hstr.view_contiguous hi hbatch h.stream
  have mem : ∀ v, v ∈ Store.streamVersions (s.view h.session) h.stream ↔
      ∃ r ∈ s.view h.session, r.stream = h.stream ∧ r.version = v := by
    simp [Store.streamVersions, and_assoc]
  obtain ⟨-, hfed, -⟩ := hstr.phase _ _ hcall
  obtain ⟨hnonneg, hpred⟩ := hfed c.event (.head _)
  -- the stream ends at the pinned version
  have hlen : ((Store.streamVersions (s.view h.session) h.stream).length : ℤ) =
      c.event.expectedVersion := by
    have hge : c.event.expectedVersion ≤
        (Store.streamVersions (s.view h.session) h.stream).length := by
      rcases hpred with h₀ | ⟨p, hp, hpe⟩ | ⟨ev', hev', -, hv⟩
      · omega
      · exact (hcont.mem_iff.1 ((mem _).2 ⟨p, hp, hpe.1.trans hok.stream, hpe.2⟩)).2
      · obtain rfl := List.mem_singleton.1 hev'
        unfold EventToAppend.newVersion at hv
        omega
    by_contra hne
    obtain ⟨r, hr, hst, hv⟩ := (mem (c.event.expectedVersion + 1)).1
      (hcont.mem_iff.2 ⟨by omega, by omega⟩)
    exact Store.uniqueCheck_free hi.log hi.pruned hu (Store.mem_view.1 hr).1
      (hi.not_aborted_of_view hr) ⟨hst.trans hok.stream.symm, hv⟩
  -- and holds every version up to the handle's
  have hversion : h.version ≤ c.event.expectedVersion := by
    by_cases h₁ : 1 ≤ h.version
    · obtain ⟨r, hr, hst, hv, hheld, -⟩ := hh.row_of_version hi h₁ le_rfl
      rw [← hlen]
      exact (hcont.mem_iff.1 ((mem _).2 ⟨r, hheld.mem_view hi ht hr hx, hst, hv⟩)).2
    · omega
  have hcurrent : c.event.expectedVersion = h.version := le_antisymm hok.le hversion
  refine ⟨rfl, rfl, hcurrent, fun r => ⟨fun h => ?_, fun hr => ?_⟩⟩
  · obtain ⟨hr, hst⟩ := h
    have hv := hcont.mem_iff.1 ((mem _).2 ⟨r, hr, hst, rfl⟩)
    obtain ⟨r', hr', hst', hv', hheld, hof⟩ := hh.row_of_version hi hv.1 (by omega)
    have hview := hheld.mem_view hi ht hr' hx
    obtain rfl := hstr.unique r (Store.mem_view.1 hr).1 r' hr' (hi.not_aborted_of_view hr)
      (hi.not_aborted_of_view hview) (hst.trans hst'.symm) hv'.symm
    exact hof.imp_right fun hid => ⟨hr', hid⟩
  · rcases hr with hr | ⟨hr, hid⟩
    · obtain ⟨hm, hst, hheld⟩ := hh.loaded r hr
      exact ⟨hheld.mem_view hi ht hm hx, hst⟩
    · obtain ⟨w, hw, hid⟩ := List.mem_map.1 hid
      obtain ⟨r', hr', hid', hst, -, hheld⟩ := hh.appended_row hi hw
      obtain rfl := hi.log.id_inj hr hr' (hid.symm.trans hid'.symm)
      exact ⟨hheld.mem_view hi ht hr hx, hst⟩

end

/-! ## Every step keeps what is so of a handle -/

/-- What the store keeps of itself. -/
structure StoreOk (s : Store) : Prop where
  sessions : Store.SessionInv s
  streams : Store.StreamInv False s
  txs : Store.TxInv s

theorem storeOk_initial : StoreOk .initial :=
  ⟨Store.sessionInv_initial, Store.streamInv_initial False, Store.txInv_initial⟩

theorem StoreOk.step {s s' : Store} {a : StoreAct} (h : StoreOk s) (hs : s.step a = some s') :
    StoreOk s' :=
  have hs' := Store.StoreStep.of_step hs
  ⟨h.sessions.step hs', h.streams.step h.sessions False.elim hs',
    h.txs.step (Store.SessionStep.of_step hs)⟩

section
variable {s s' : Store} {a : StoreAct} {h : StreamHandle} {c : PendingAppend} {w : Written}

/-- What a row of a handle's append says, at the step that inserts it. -/
structure NewRow (s s' : Store) (h : StreamHandle) (c : PendingAppend) (w : Written) : Prop where
  event : w.event = c.event
  current : c.event.expectedVersion = h.version
  inProgress : InProgress s' h c.number
  /-- No other call of the handle has a row that stays. -/
  only : ∀ c' ∈ h.calls, ∀ w' ∈ s.writes, w'.call = c'.number →
    (∀ f ∈ s.failures, f.call ≠ c'.number) → c'.number = c.number

theorem HandleOk.newRow (hh : HandleOk s h) (hok : StoreOk s) (hs : Store.StoreStep s a s')
    (hw : w ∈ s'.writes) (hnew : w ∉ s.writes) (hc : c ∈ h.calls) (hn : w.call = c.number) : NewRow s s' h c w := by
  rcases hs.writes with he | ⟨k, n, x, id, ew, ev, rest, hcall, hu, hx, he, hcall'⟩
  · exact absurd (he ▸ hw) hnew
  · have hwe : w = ⟨n, ev, id, x⟩ := by
      rw [he] at hw
      exact List.mem_singleton.1 ((List.mem_append.1 hw).resolve_left hnew)
    subst hwe
    obtain rfl : n = c.number := hn
    obtain ⟨rfl, hev, hcur, -⟩ := hh.insert hok.sessions hok.streams hok.txs hc hcall hu hx
    refine ⟨hev, hev ▸ hcur, ⟨_, hcall', rfl⟩, fun c' hc' w' hw' hn' hf' => ?_⟩
    have hok' := hh.calls c' hc'
    obtain ⟨hev', hkeep⟩ := hok'.row w' hw' hn'
    have hcur' := hok'.current w' hw' hn' hf'
    rcases hkeep with ⟨f, hf, hfc⟩ | hheld | ⟨o, ho, hnum⟩
    · exact absurd hfc (hf' f hf)
    · -- a row that stays holds the version of the new one
      exfalso
      obtain ⟨r, hrow, -, hxid, hst, hv⟩ := hok.sessions.row w' hw'
      have hview := (hxid ▸ hheld).mem_view hok.sessions hok.txs hrow hx
      refine Store.uniqueCheck_free hok.sessions.log hok.sessions.pruned hu hrow
        (hok.sessions.not_aborted_of_view hview) ⟨?_, ?_⟩
      · rw [hst, hev', hev, hok'.stream, (hh.calls c hc).stream]
      · rw [hv, hev', EventToAppend.newVersion, EventToAppend.newVersion, hcur', hcur]
    · rw [hcall] at ho
      cases ho
      exact hnum.symm

/-- A call of a handle after a step of the store. -/
theorem CallOk.step (hk : CallOk s h c) (hh : HandleOk s h) (hc : c ∈ h.calls)
    (hok : StoreOk s) (hstep : s.step a = some s')
    (hheld : ∀ x, Held s h x → Held s' h x) : CallOk s' h c := by
  have hs := Store.StoreStep.of_step hstep
  refine ⟨hk.lt.trans_le hs.nextCall_le, hk.stream, hk.le, fun k o ho hn => ?_,
    fun w hw hn => ?_, fun w hw hn hf => ?_⟩
  · rcases hs.call ho with ⟨request, -, hnew, -⟩ | ⟨o₀, ho₀, hnum, hcar⟩
    · have := hk.lt
      omega
    · obtain ⟨rfl, hph, hmode⟩ := hk.own k o₀ ho₀ (hnum.trans hn)
      refine ⟨rfl, hcar _ hph, ?_⟩
      cases Store.SessionStep.of_step hstep h.session with
      | goesOn hg => exact hg.inTx.trans hmode
      | begins _ hc₀ | ends _ hc₀ =>
        rw [hc₀] at ho₀
        cases ho₀
      | written _ _ hσ | raises _ _ hσ =>
        rw [hσ] at ho
        cases ho
  · by_cases hold : w ∈ s.writes
    · obtain ⟨hev, hkeep⟩ := hk.row w hold hn
      refine ⟨hev, ?_⟩
      rcases hkeep with ⟨f, hf, hfc⟩ | hx | ⟨o, ho, hnum⟩
      · exact .inl ⟨f, hs.failures_subset hf, hfc⟩
      · exact .inr (.inl (hheld _ hx))
      · obtain ⟨-, -, hmode⟩ := hk.own _ o ho hnum
        have hxid := ((hok.sessions.session h.session).writes o ho w hold (hn.trans hnum.symm)).1
        by_cases hi : h.inTx = true
        · exact .inr (.inl (hheld _ (.inr ⟨hi, .inr hxid⟩)))
        · have hpool : (s.sessions h.session).inTx = false := by
            rw [hmode]
            simpa using hi
          cases Store.SessionStep.of_step hstep h.session with
          | goesOn hg =>
            obtain ⟨o', ho', hnum'⟩ := hg.call hpool o ho
            exact .inr (.inr ⟨o', ho', hnum'.trans hnum⟩)
          | begins _ hc₀ | ends _ hc₀ =>
            rw [hc₀] at ho
            cases ho
          | written _ _ _ hcm => exact .inr (.inl (.inl (hcm _ hxid)))
          | raises hc₀ hf =>
            rw [hc₀] at ho
            cases ho
            rw [hf]
            exact .inl ⟨_, .head _, hnum⟩
    · have hnew := hh.newRow hok hs hw hold hc hn
      exact ⟨hnew.event, .inr (.inr hnew.inProgress)⟩
  · by_cases hold : w ∈ s.writes
    · exact hk.current w hold hn fun f hf' => hf f (hs.failures_subset hf')
    · have hnew := hh.newRow hok hs hw hold hc hn
      exact hnew.current

/-- A handle after a step of the store, other than the end of its transaction. -/
theorem HandleOk.step (hh : HandleOk s h) (hok : StoreOk s)
    (hstep : s.step a = some s')
    (hend : h.inTx = true → a ≠ .commit h.session ∧ a ≠ .rollback h.session) :
    HandleOk s' h := by
  have hs := Store.StoreStep.of_step hstep
  have hss := Store.SessionStep.of_step hstep h.session
  obtain ⟨he, -, -⟩ := hok.sessions.step_log hs
  have hheld : ∀ x, Held s h x → Held s' h x := fun x hx =>
    hx.step hh.inTx hok.txs he hss hend
  have hwrites : s.writes ⊆ s'.writes := by
    rcases hs.writes with hw | ⟨k, n, x, id, ew, ev, rest, -, -, -, hw, -⟩ <;> rw [hw]
    · exact List.Subset.refl _
    · exact List.subset_append_left _ _
  exact
    { inTx := inTx_step hh.inTx hok.txs hss hend
      version := hh.version
      nonneg := hh.nonneg
      loaded := fun r hr =>
        have ⟨hm, hst, hx⟩ := hh.loaded r hr
        ⟨he.rows r hm, hst, hheld _ hx⟩
      covers := hh.covers
      appended := fun w hw =>
        have ⟨hm, hst, hx⟩ := hh.appended w hw
        ⟨hwrites hm, hst, hheld _ hx⟩
      versions := hh.versions
      pinned := hh.pinned
      calls := fun c hc => (hh.calls c hc).step hh hc hok hstep hheld
      single := fun c hc c' hc' w hw w' hw' hn hn' hf hf' => by
        have hf₀ : ∀ f ∈ s.failures, f.call ≠ c.number := fun f hm =>
          hf f (hs.failures_subset hm)
        have hf₀' : ∀ f ∈ s.failures, f.call ≠ c'.number := fun f hm =>
          hf' f (hs.failures_subset hm)
        by_cases hold : w ∈ s.writes
        · by_cases hold' : w' ∈ s.writes
          · exact hh.single c hc c' hc' w hold w' hold' hn hn' hf₀ hf₀'
          · exact (hh.newRow hok hs hw' hold' hc' hn').only c hc w hold hn hf₀
        · have hnew := hh.newRow hok hs hw hold hc hn
          by_cases hold' : w' ∈ s.writes
          · exact (hnew.only c' hc' w' hold' hn' hf₀').symm
          · -- both rows are the new one
            rcases hs.writes with he | ⟨k, n, x, id, ew, ev, rest, -, -, -, he, -⟩ <;>
              rw [he] at hw hw'
            · exact absurd hw hold
            · have h₁ := List.mem_singleton.1 ((List.mem_append.1 hw).resolve_left hold)
              have h₂ := List.mem_singleton.1 ((List.mem_append.1 hw').resolve_left hold')
              rw [← hn, ← hn', h₁, h₂] }

end

section
variable {s : Store} {h h' : StreamHandle} {l : Loading} {n : ℕ} {projected : Bool}

/-- The runner of a handle sees the versions from one on. -/
theorem StoreOk.runnerRows_contiguous (hok : StoreOk s)
    (hready : HandleStore.RunnerReady s l.session l.inTx) (stream : String × String) :
    Contiguous (Store.streamVersions (HandleStore.runnerRows s l.session l.inTx) stream) := by
  unfold HandleStore.runnerRows
  split
  · refine hok.streams.view_contiguous hok.sessions ?_ stream
    rw [Session.batch, hready.1]
  · exact hok.streams.committed_contiguous hok.sessions stream

/-- A handle that has just been opened. -/
theorem HandleOk.of_openHandle (hok : StoreOk s)
    (hready : HandleStore.RunnerReady s l.session l.inTx)
    (ho : HandleStore.openHandle s l = .opened h) : HandleOk s h := by
  have hcont := hok.runnerRows_contiguous hready l.stream
  have hversion := loadAggregateForWriting_version hcont l.aggregateType l.isArchived
  simp only [HandleStore.openHandle] at ho
  split at ho
  · cases ho
  · cases ho
    refine
      { inTx := fun hi => hready.2.2.trans hi
        version := by simp
        nonneg := by simp [hversion]
        loaded := fun r hr => ?_
        covers := fun v h₁ hv => ?_
        appended := fun _ hw => nomatch hw
        versions := rfl
        pinned := fun _ hev => nomatch hev
        calls := fun _ hc => nomatch hc
        single := fun _ hc => nomatch hc }
    · obtain ⟨hm, hst⟩ := List.mem_filter.1 hr
      unfold HandleStore.runnerRows at hm
      split at hm
      · next hi =>
        obtain ⟨hm, hv, -⟩ := Store.mem_view.1 hm
        exact ⟨hm, of_decide_eq_true hst, hv.imp_right fun hx => ⟨hi, .inr hx⟩⟩
      · obtain ⟨hm, hv, -⟩ := Log.mem_visibleRows.1 hm
        exact ⟨hm, of_decide_eq_true hst, .inl hv⟩
    · rw [hversion] at hv
      obtain ⟨r, hr, rfl⟩ := List.mem_map.1 (hcont.mem_iff.2 ⟨h₁, hv⟩)
      exact ⟨r, hr, rfl⟩

/-- An `appendOne` pins the handle's version. -/
theorem HandleOk.pin (hh : HandleOk s h) (type : String) (createdAt : Option ℕ) :
    HandleOk s (h.pin type createdAt) :=
  { inTx := hh.inTx
    version := hh.version
    nonneg := hh.nonneg
    loaded := hh.loaded
    covers := hh.covers
    appended := hh.appended
    versions := hh.versions
    pinned := fun ev hev => by
      rcases List.mem_append.1 hev with hev | hev
      · exact hh.pinned ev hev
      · rw [List.mem_singleton.1 hev]
        exact ⟨rfl, le_rfl⟩
    calls := fun c hc =>
      have hk := hh.calls c hc
      ⟨hk.lt, hk.stream, hk.le, hk.own, hk.row, hk.current⟩
    single := hh.single }

/-- Some appends no longer wait, and some calls have settled. -/
theorem HandleOk.subset (hh : HandleOk s h) {pinned : List EventToAppend}
    {calls : List PendingAppend} (hp : pinned ⊆ h.pinned) (hc : calls ⊆ h.calls) :
    HandleOk s { h with pinned, calls } :=
  { inTx := hh.inTx
    version := hh.version
    nonneg := hh.nonneg
    loaded := hh.loaded
    covers := hh.covers
    appended := hh.appended
    versions := hh.versions
    pinned := fun ev hev => hh.pinned ev (hp hev)
    calls := fun c hm =>
      have hk := hh.calls c (hc hm)
      ⟨hk.lt, hk.stream, hk.le, hk.own, hk.row, hk.current⟩
    single := fun c hm c' hm' => hh.single c (hc hm) c' (hc hm') }

/-- The call of a pinned append has begun. -/
theorem HandleOk.started (hh : HandleOk s h) {c : PendingAppend} (hk : CallOk s h c)
    (hnew : ∀ w ∈ s.writes, w.call ≠ c.number) : HandleOk s { h with calls := c :: h.calls } :=
  { inTx := hh.inTx
    version := hh.version
    nonneg := hh.nonneg
    loaded := hh.loaded
    covers := hh.covers
    appended := hh.appended
    versions := hh.versions
    pinned := hh.pinned
    calls := fun c' hc' => by
      have hk' : CallOk s h c' := (List.mem_cons.1 hc').elim (fun he => he ▸ hk) (hh.calls c')
      exact ⟨hk'.lt, hk'.stream, hk'.le, hk'.own, hk'.row, hk'.current⟩
    single := fun c₁ h₁ c₂ h₂ w₁ hw₁ w₂ hw₂ hn₁ hn₂ => by
      rcases List.mem_cons.1 h₁ with rfl | h₁
      · exact absurd hn₁ (hnew w₁ hw₁)
      · rcases List.mem_cons.1 h₂ with rfl | h₂
        · exact absurd hn₂ (hnew w₂ hw₂)
        · exact hh.single c₁ h₁ c₂ h₂ w₁ hw₁ w₂ hw₂ hn₁ hn₂ }

/-- A call that has just begun. -/
theorem CallOk.of_start {s' : Store} {ev : EventToAppend} (hok : StoreOk s)
    (hready : HandleStore.RunnerReady s h.session h.inTx) (hst : ev.stream = h.stream)
    (hle : ev.expectedVersion ≤ h.version)
    (hstep : s.step (.call h.session (.appendDomainEvent ev (some ev.expectedVersion))) = some s') :
    CallOk s' h ⟨s.nextCall, ev⟩ ∧ ∀ w ∈ s'.writes, w.call ≠ s.nextCall := by
  have hs := Store.StoreStep.of_step hstep
  have hnew : ∀ w ∈ s'.writes, w.call ≠ s.nextCall := fun w hw he => by
    rcases hs.writes with hwr | ⟨k, n, x, id, ew, ev', rest, hcall, -, -, hwr, -⟩ <;> rw [hwr] at hw
    · exact absurd (hok.sessions.write_lt w hw) (Nat.not_lt.2 he.ge)
    · rcases List.mem_append.1 hw with hw | hw
      · exact absurd (hok.sessions.write_lt w hw) (Nat.not_lt.2 he.ge)
      · rw [List.mem_singleton.1 hw] at he
        exact absurd ((hok.sessions.session k).call_lt _ hcall) (Nat.not_lt.2 he.ge)
  refine ⟨⟨?_, hst, hle, fun k o ho hn => ?_, fun w hw hn => absurd hn (hnew w hw),
    fun w hw hn => absurd hn (hnew w hw)⟩, hnew⟩
  · simp only [Store.step, Option.ite_none_right_eq_some, Option.some.injEq] at hstep
    obtain ⟨-, rfl⟩ := hstep
    exact Nat.lt_succ_self _
  · rcases hs.call ho with ⟨request, ha, -, hp⟩ | ⟨o₀, ho₀, hnum, -⟩
    · cases ha
      have hph : o.phase.Carries ev := by
        generalize o.phase = phase at hp
        cases hp
        exact ⟨_, rfl, rfl⟩
      refine ⟨rfl, hph, ?_⟩
      cases Store.SessionStep.of_step hstep h.session with
      | goesOn hg => exact hg.inTx.trans hready.2.2
      | ends ha => simp at ha
      | written hc | raises hc =>
        rw [hready.1] at hc
        cases hc
    · exact absurd ((hok.sessions.session k).call_lt o₀ ho₀) (Nat.not_lt.2 (hnum.trans hn).ge)

/-- An append settles. -/
theorem HandleOk.settleCall (hh : HandleOk s h) (hn : n ∈ h.calls.map (·.number))
    (hdone : (s.sessions h.session).call.map (·.number) ≠ some n)
    (hs : HandleStore.settleCall s h n projected = some h') : HandleOk s h' := by
  have hsub : h.calls.filter (·.number ≠ n) ⊆ h.calls := List.filter_subset_self _
  simp only [HandleStore.settleCall] at hs
  split at hs
  · cases hs
    exact hh.subset (List.Subset.refl _) hsub
  · next hf =>
    obtain ⟨w, hw, hs⟩ := Option.map_eq_some_iff.1 hs
    split at hs
    · subst hs
      have hmem := List.mem_of_find?_eq_some hw
      have hcall : w.call = n := by simpa using List.find?_some hw
      obtain ⟨c, hc, rfl⟩ := List.mem_map.1 hn
      have hk := hh.calls c hc
      have hf' : ∀ f ∈ s.failures, f.call ≠ c.number := fun f hm he => hf ⟨f, hm, he⟩
      obtain ⟨hev, hkeep⟩ := hk.row w hmem hcall
      have hcur := hk.current w hmem hcall hf'
      have hheld : Held s h w.xid := by
        rcases hkeep with ⟨f, hm, he⟩ | hheld | ⟨o, ho, he⟩
        · exact absurd he (hf' f hm)
        · exact hheld
        · rw [ho] at hdone
          exact absurd (congrArg some he) hdone
      exact
        { inTx := hh.inTx
          version := by
            have := hh.version
            simp only [List.length_append, List.length_singleton]
            omega
          nonneg := hh.nonneg
          loaded := hh.loaded
          covers := hh.covers
          appended := fun w' hw' => by
            rcases List.mem_append.1 hw' with hw' | hw'
            · exact hh.appended w' hw'
            · rw [List.mem_singleton.1 hw']
              exact ⟨hmem, hev ▸ hk.stream, hheld⟩
          versions := by
            have := hh.version
            simp only [List.map_append, List.map_cons, List.map_nil, List.length_append,
              List.length_singleton, consecutive_succ, hh.versions]
            rw [hev, EventToAppend.newVersion, hcur, hh.version]
          pinned := fun ev hev =>
            have ⟨hst, hle⟩ := hh.pinned ev hev
            ⟨hst, hle.trans (Int.le_add_one le_rfl)⟩
          calls := fun c' hc' => by
            obtain ⟨hc', hne⟩ := List.mem_filter.1 hc'
            have hk' := hh.calls c' hc'
            refine ⟨hk'.lt, hk'.stream, hk'.le.trans (Int.le_add_one le_rfl), hk'.own, hk'.row,
              fun w' hw' hn' hf₂ => ?_⟩
            -- another call with a row would have the same version
            have := hh.single c' hc' c hc w' hw' w hmem hn' hcall hf₂ hf'
            simp [this] at hne
          single := fun c₁ h₁ c₂ h₂ => hh.single c₁ (hsub h₁) c₂ (hsub h₂) }
    · subst hs
      exact hh.subset (List.Subset.refl _) hsub

end

namespace HandleStore

/-- What a store with handles keeps. -/
structure Inv (s : HandleStore) : Prop where
  store : StoreOk s.store
  handles : ∀ i h, s.handles i = .opened h → HandleOk s.store h

section
variable {s s' : HandleStore} {act : HandleAct} {a : StoreAct} {i : ℕ} {h : StreamHandle}

theorem inv_initial : Inv .initial := ⟨storeOk_initial, fun _ _ h => nomatch h⟩

/-- The handles that are left after a step of the store were there before, and the step did not end
their transaction. -/
theorem opened_of_handlesAfter (hslot : handlesAfter s.handles a i = .opened h) :
    s.handles i = .opened h ∧
      (h.inTx = true → a ≠ .commit h.session ∧ a ≠ .rollback h.session) := by
  have closed : ∀ {k}, closeHandles s.handles k i = .opened h →
      s.handles i = .opened h ∧ (h.inTx = true → k ≠ h.session) := by
    intro k hk
    unfold closeHandles at hk
    split at hk
    · cases hk
    · next hn =>
      refine ⟨hk, fun hi he => hn ?_⟩
      rw [hk]
      exact ⟨he.symm, hi⟩
  cases a with
  | commit k | rollback k =>
    obtain ⟨hs, hne⟩ := closed hslot
    exact ⟨hs, fun hi => by simpa using hne hi⟩
  | _ => exact ⟨hslot, fun _ => by simp⟩

/-- A step of a handle is a step of the store, or leaves the store as it is. -/
theorem store_of_step (hact : s.step act = some s') :
    s'.store = s.store ∨ ∃ a, s.store.step a = some s'.store := by
  cases act with
  | store a =>
    obtain ⟨store, hstep, rfl⟩ := Option.map_eq_some_iff.1 hact
    exact .inr ⟨a, hstep⟩
  | start i =>
    simp only [HandleStore.step] at hact
    split at hact
    · split at hact
      · cases hact
      · split at hact
        · obtain ⟨store, hstep, rfl⟩ := Option.map_eq_some_iff.1 hact
          exact .inr ⟨_, hstep⟩
        · cases hact
    · cases hact
  | settle i n projected =>
    simp only [HandleStore.step] at hact
    split at hact
    · split at hact
      · obtain ⟨h', -, rfl⟩ := Option.map_eq_some_iff.1 hact
        exact .inl rfl
      · cases hact
    · cases hact
  | fetchForWriting | read =>
    simp only [HandleStore.step] at hact
    split at hact
    · split at hact
      · cases hact
        exact .inl rfl
      · cases hact
    · cases hact
  | appendOne | refuse =>
    simp only [HandleStore.step] at hact
    split at hact
    · cases hact
      exact .inl rfl
    · cases hact

/-- One handle changes. -/
theorem Inv.setHandle (hs : Inv s) {slot : HandleSlot}
    (h : ∀ h, slot = .opened h → HandleOk s.store h) : Inv (s.setHandle i slot) := by
  refine ⟨hs.store, fun j h' hj => ?_⟩
  unfold HandleStore.setHandle at hj
  by_cases hji : j = i
  · subst hji
    exact h h' ((Function.update_self _ _ _).symm.trans hj)
  · exact hs.handles j h' ((Function.update_of_ne hji _ _).symm.trans hj)

/-- Every step keeps what is so of the handles. -/
theorem Inv.step (hs : Inv s) (hact : s.step act = some s') : Inv s' := by
  cases act with
  | store a =>
    obtain ⟨store, hstep, rfl⟩ := Option.map_eq_some_iff.1 hact
    refine ⟨hs.store.step hstep, fun i h hslot => ?_⟩
    obtain ⟨hslot, hend⟩ := opened_of_handlesAfter hslot
    exact (hs.handles i h hslot).step hs.store hstep hend
  | fetchForWriting i k tenantId aggregateId aggregateType expectedVersion =>
    simp only [HandleStore.step] at hact
    split at hact
    · split at hact
      · cases hact
        exact hs.setHandle fun h hh => nomatch hh
      · cases hact
    · cases hact
  | read i =>
    simp only [HandleStore.step] at hact
    split at hact
    · split at hact
      · next hready =>
        cases hact
        exact hs.setHandle fun h hh => .of_openHandle hs.store hready hh
      · cases hact
    · cases hact
  | appendOne i type createdAt =>
    simp only [HandleStore.step] at hact
    split at hact
    · next h hslot =>
      cases hact
      refine hs.setHandle fun h' hh => ?_
      cases hh
      exact (hs.handles i h hslot).pin type createdAt
    · cases hact
  | refuse i =>
    simp only [HandleStore.step] at hact
    split at hact
    · next h hslot =>
      cases hact
      refine hs.setHandle fun h' hh => ?_
      cases hh
      exact (hs.handles i h hslot).subset (List.tail_subset _) (List.Subset.refl _)
    · cases hact
  | start i =>
    simp only [HandleStore.step] at hact
    split at hact
    · next h hslot =>
      split at hact
      · cases hact
      · next ev rest hpin =>
        split at hact
        · next hready =>
          obtain ⟨store, hstep, rfl⟩ := Option.map_eq_some_iff.1 hact
          have hend : ∀ j, StoreAct.call h.session (.appendDomainEvent ev (some ev.expectedVersion)) ≠
              .commit j ∧ StoreAct.call h.session
                (.appendDomainEvent ev (some ev.expectedVersion)) ≠ .rollback j := by simp
          refine ⟨hs.store.step hstep, fun j h' hj => ?_⟩
          have after : ∀ j h', s.handles j = .opened h' → HandleOk store h' := fun j h' hj =>
            (hs.handles j h' hj).step hs.store hstep fun _ => hend _
          by_cases hji : j = i
          · subst hji
            have hj' := (Function.update_self _ _ _).symm.trans hj
            cases hj'
            obtain ⟨hst, hle⟩ := (hs.handles j h hslot).pinned ev (hpin ▸ .head _)
            obtain ⟨hk, hnew⟩ := CallOk.of_start hs.store hready hst hle hstep
            have hsub : rest ⊆ h.pinned := hpin ▸ List.subset_cons_self _ _
            exact ((after j h hslot).started hk hnew).subset hsub (List.Subset.refl _)
          · exact after j h' ((Function.update_of_ne hji _ _).symm.trans hj)
        · cases hact
    · cases hact
  | settle i n projected =>
    simp only [HandleStore.step] at hact
    split at hact
    · next h hslot =>
      split at hact
      · next hn =>
        obtain ⟨h', hset, rfl⟩ := Option.map_eq_some_iff.1 hact
        refine hs.setHandle fun h₁ hh => ?_
        cases hh
        exact (hs.handles i h hslot).settleCall hn.1 hn.2 hset
      · cases hact
    · cases hact

theorem inv_of_run (hr : Run HandleStore.step (fun _ _ => True) .initial s) : Inv s :=
  hr.invariant inv_initial fun _ _ _ hs _ hact => hs.step hact

/-- In every run the settled appends of a handle have consecutive versions from the loaded one on, and
a step that inserts a row for a call of the handle finds the stream to be the rows of the read and of
the handle's earlier appends. -/
theorem appends_conditional (hr : Run HandleStore.step (fun _ _ => True) .initial s)
    (hh : s.handles i = .opened h) :
    h.appended.map (·.event.newVersion) = consecutive h.loadedVersion h.appended.length ∧
      ∀ act s' w, s.step act = some s' → s'.store.writes = s.store.writes ++ [w] →
        w.call ∈ h.calls.map (·.number) →
        w.event.expectedVersion = h.version ∧ WholeStream s.store h h.loaded := by
  have hinv := inv_of_run hr
  have hok := hinv.handles i h hh
  refine ⟨hok.versions, fun act s' w hact hwrites hcall => ?_⟩
  have hsame : s'.store.writes ≠ s.store.writes := fun he => by
    rw [he] at hwrites
    exact absurd hwrites.symm (by simp)
  obtain ⟨a, hstep⟩ := (store_of_step hact).resolve_left fun he => hsame (congrArg _ he)
  rcases (Store.StoreStep.of_step hstep).writes with he | ⟨k, n, x, id, ew, ev, rest, hc, hu, hx, he, -⟩
  · exact absurd he hsame
  · obtain rfl : _ = w := List.singleton_injective (List.append_cancel_left (he.symm.trans hwrites))
    obtain ⟨c, hmem, rfl⟩ := List.mem_map.1 hcall
    obtain ⟨-, -, hver, hwhole⟩ := hok.insert hinv.store.sessions hinv.store.streams
      hinv.store.txs hmem hc hu hx
    exact ⟨hver, hwhole⟩

end

/-! ## A stream of two types -/

/-- A stream starts with an event of another type; then a handle is opened, and its append comes to
its insert. -/
def otherTypeFirst : List HandleAct :=
  .store (.call 0 (.append { Store.orderEvent "a" 0 with aggregateType := "invoice" })) ::
    .replicate 7 (.store (.run 0 0)) ++
    [.fetchForWriting 0 1 "tenant-a" "a" "order" none, .read 0, .appendOne 0 "order.changed" none,
      .start 0] ++ .replicate 5 (.store (.run 1 0))

/-- The handle shows no event, its stream has one, and the next step inserts a row for its call. -/
def insertsUnseen (s : HandleStore) : HandleSlot → Bool
  | .opened h => h.events == [] && h.appended.isEmpty && h.version == 1 &&
    (s.store.view h.session).any (·.stream = h.stream) &&
    (s.step (.store (.run 1 0))).any fun s' => s'.store.writes.any fun w =>
      s'.store.writes == s.store.writes ++ [w] && decide (w.call ∈ h.calls.map (·.number))
  | _ => false

theorem exists_insertsUnseen : ∃ s h s' w, Run HandleStore.step (fun _ _ => True) .initial s ∧
    s.handles 0 = .opened h ∧ s.step (.store (.run 1 0)) = some s' ∧
    s'.store.writes = s.store.writes ++ [w] ∧ w.call ∈ h.calls.map (·.number) ∧ h.events = [] ∧
    h.appended = [] ∧ h.version = 1 ∧ ∃ r ∈ s.store.view h.session, r.stream = h.stream := by
  obtain ⟨s, hr, hs⟩ := exists_run_of_exec HandleStore.step .initial otherTypeFirst
    (fun s => insertsUnseen s (s.handles 0)) (by decide +kernel)
  unfold insertsUnseen at hs
  split at hs
  · next h hslot =>
    simp only [Bool.and_eq_true, beq_iff_eq, List.isEmpty_iff, List.any_eq_true, decide_eq_true_eq,
      Option.any_eq_true] at hs
    obtain ⟨⟨⟨⟨hev, happ⟩, hv⟩, hrow⟩, s', hs', w, -, hw, hcall⟩ := hs
    exact ⟨s, h, s', w, hr, hslot, hs', hw, hcall, hev, happ, hv, hrow⟩
  · cases hs

/-- The row of the other type is among those that the insert finds. -/
theorem appends_conditional_otherTypeFirst : ∃ (s : HandleStore) (h : StreamHandle) (w : Written),
    h.events = [] ∧ w.event.newVersion = 2 ∧ WholeStream s.store h h.loaded := by
  obtain ⟨s, h, s', w, hr, hslot, hact, hwrites, hcall, hev, -, hv, -⟩ := exists_insertsUnseen
  obtain ⟨hexpected, hwhole⟩ := (appends_conditional hr hslot).2 _ s' w hact hwrites hcall
  refine ⟨s, h, w, hev, ?_, hwhole⟩
  rw [EventToAppend.newVersion, hexpected, hv]
  rfl

/-- It is not among the handle's events, and the append succeeds. -/
theorem events_not_whole : ¬ ∀ s i h act s' w, Run HandleStore.step (fun _ _ => True) .initial s →
    s.handles i = .opened h → s.step act = some s' → s'.store.writes = s.store.writes ++ [w] →
    w.call ∈ h.calls.map (·.number) → WholeStream s.store h h.events := fun hall => by
  obtain ⟨s, h, s', w, hr, hslot, hact, hwrites, hcall, hev, happ, -, r, hview, hst⟩ := exists_insertsUnseen
  rcases (hall s 0 h _ s' w hr hslot hact hwrites hcall r).1 ⟨hview, hst⟩ with hmem | ⟨-, hmem⟩
  · rw [hev] at hmem
    nomatch hmem
  · rw [happ] at hmem
    nomatch hmem

end HandleStore

end Kumiko
