import Kumiko.EventStore.Versions
import Kumiko.Pipeline.NoEventLost

/-!
# Delivery order

Clients that append to the store and one consumer. For a per-event consumer the fetch is a prefix of what it has
not resolved (`Owes.mem_fetch_of_lt`); for a batch consumer a pending event that the cap left out takes the new
events of its tenant with it (`Owes.mem_fetch_of_covers`). That orders the versions of a stream while batches
list them ascending and no gap is dropped too early (`delivery_order_of_run`, `not_delivery_order`).
-/

namespace Kumiko

open Span Transition

/-! ## The order of the calls of a turn -/

section
variable {c : EventConsumer} {opts : DispatcherOptions} {maxAttempts start : ℕ}
  {answers : HandlerAnswers} {state : ConsumerStateRow} {events : List EventRow}
  {o : DeliveryOutcome} {pre post : List HandlerCall} {call : HandlerCall}
  {pendingLimit pendingGapCount : ℕ} {tenantIdsInRangesAbove : ℕ → List String}

/-- The loop hands an event over only after it has resolved all events before it. -/
theorem deliverEach_order {answer : EventRow → Option HandlerError}
    (hs : events.Pairwise fun a b => a.id < b.id)
    (h : (deliverEach c maxAttempts start answer o events).2 = pre ++ call :: post) :
    ∃ row, call.events = [row] ∧ ∀ e ∈ events, e.id < row.id → e.id ∈ resolvedIds c pre := by
  induction events generalizing o pre with
  | nil =>
    have := congrArg List.length h
    simp [deliverEach] at this
  | cons row rows ih =>
    rw [List.pairwise_cons] at hs
    -- the first call hands over the first event, and nothing is before that
    have first : ∀ a, call = .event row a →
        ∃ r, call.events = [r] ∧ ∀ e ∈ row :: rows, e.id < r.id → e.id ∈ resolvedIds c [] := by
      rintro a rfl
      refine ⟨row, rfl, fun e he hlt => ?_⟩
      cases he with
      | head => exact absurd hlt (Nat.lt_irrefl _)
      | tail _ he => exact absurd (hs.1 e he) (Nat.not_lt.2 hlt.le)
    rcases deliverEach_cons c maxAttempts start answer o row rows with
      ⟨o', a, -, -, -, hres, he⟩ | ⟨o', a, -, -, -, -, he⟩
    · rw [he] at h
      cases pre with
      | nil =>
        simp only [List.nil_append, List.cons.injEq] at h
        exact first a h.1.symm
      | cons call' pre =>
        simp only [List.cons_append, List.cons.injEq] at h
        obtain ⟨r, hr, hlt⟩ := ih hs.2 h.2
        refine ⟨r, hr, fun e he hid => ?_⟩
        rw [← h.1, resolvedIds_cons, hres, List.singleton_append]
        cases he with
        | head => exact .head _
        | tail _ he => exact .tail _ (hlt e he hid)
    · rw [he] at h
      cases pre with
      | nil =>
        simp only [List.nil_append, List.cons.injEq] at h
        exact first a h.1.symm
      | cons call' pre =>
        have := congrArg List.length h
        simp at this

/-- A delivery hands an event over together with the events before it, or after it has resolved
them. -/
theorem deliverEvents_order (hs : events.Pairwise fun a b => a.id < b.id)
    (h : (deliverEvents c events answers maxAttempts state).2 = pre ++ call :: post) :
    ∀ n ∈ call.events, ∀ q ∈ events, q.id < n.id →
      (c.batchHandler = true ∧ q ∈ call.events) ∨ q.id ∈ resolvedIds c pre := by
  have each : ∀ pre, (deliverEach c maxAttempts state.lastProcessedEventId answers.event
      (.start state none) events).2 = pre ++ call :: post →
      ∀ n ∈ call.events, ∀ q ∈ events, q.id < n.id → q.id ∈ resolvedIds c pre := by
    intro pre h n hn q hq hlt
    obtain ⟨row, hrow, hres⟩ := deliverEach_order hs h
    rw [hrow, List.mem_singleton] at hn
    exact hres q hq (hn ▸ hlt)
  -- the batch call hands everything over
  have batch : ∀ answer, c.batchHandler = true → call = .batch events answer →
      ∀ n ∈ call.events, ∀ q ∈ events, q.id < n.id →
        (c.batchHandler = true ∧ q ∈ call.events) ∨ q.id ∈ resolvedIds c [] := by
    rintro answer hb rfl n - q hq -
    exact .inl ⟨hb, hq⟩
  unfold deliverEvents at h
  dsimp only at h
  split at h
  · next hb =>
    rw [Bool.and_eq_true] at hb
    cases hanswer : answers.batch with
    | ok holds =>
      rw [hanswer] at h
      cases pre with
      | nil =>
        simp only [List.nil_append, List.cons.injEq] at h
        exact batch _ hb.1 h.1.symm
      | cons call' pre =>
        have := congrArg List.length h
        simp at this
    | error e =>
      rw [hanswer] at h
      cases pre with
      | nil =>
        simp only [List.nil_append, List.cons.injEq] at h
        exact batch _ hb.1 h.1.symm
      | cons call' pre =>
        simp only [List.cons_append, List.cons.injEq] at h
        intro n hn q hq hlt
        refine .inr ?_
        rw [resolvedIds_cons]
        exact List.mem_append_right _ (each pre h.2 n hn q hq hlt)
  · exact fun n hn q hq hlt => .inr (each pre h n hn q hq hlt)

/-- The calls of a turn are a delivery of what it hands over. -/
theorem deliverConsumerTurn_calls (t : TurnDelivery)
    (ht : deliverConsumerTurn c opts state events pendingLimit pendingGapCount
      tenantIdsInRangesAbove answers = t) :
    t.calls = (deliverEvents c t.deliverable answers opts.maxAttempts state).2 := by
  subst ht
  simp only [deliverConsumerTurn]
  generalize (if isIntakePausedByPendingGapLimit c pendingGapCount opts.maxPendingGapRanges = true
    then _ else _) = deliverable
  split
  · next he =>
    rw [List.isEmpty_iff] at he
    subst he
    simp [deliverEvents, deliverEach]
  · rfl

/-- A per-event consumer is handed everything that was fetched. -/
theorem deliverable_of_perEvent (hb : c.batchHandler = false) :
    (deliverConsumerTurn c opts state events pendingLimit pendingGapCount tenantIdsInRangesAbove
      answers).deliverable = events := by
  simp [deliverConsumerTurn, isIntakePausedByPendingGapLimit,
    withholdNewEventsOfTenantsWithUnfetchedPending, leftOutAbove, hb]

/-- No new event is handed over of a tenant with pending events that the capped fetch left out. -/
theorem tenant_of_mem_deliverable {n : EventRow} {lastPendingId : ℕ}
    (hl : leftOutAbove c events state.lastProcessedEventId pendingLimit = some lastPendingId)
    (hn : n ∈ (deliverConsumerTurn c opts state events pendingLimit pendingGapCount
      tenantIdsInRangesAbove answers).deliverable) (hlt : state.lastProcessedEventId < n.id) :
    n.tenantId ∉ tenantIdsInRangesAbove lastPendingId := by
  have withheld : n ∈ withholdNewEventsOfTenantsWithUnfetchedPending c events
      state.lastProcessedEventId pendingLimit tenantIdsInRangesAbove := by
    simp only [deliverConsumerTurn] at hn
    split at hn
    · exact (List.mem_filter.1 hn).1
    · exact hn
  simp only [withholdNewEventsOfTenantsWithUnfetchedPending, hl] at withheld
  split at withheld
  · next he =>
    rw [List.isEmpty_iff] at he
    rw [he]
    exact List.not_mem_nil
  · have := (List.mem_filter.1 withheld).2
    simp only [Bool.or_eq_true, decide_eq_true_eq] at this
    exact this.resolve_left (by omega)

end

/-! ## The order of a fetch -/

section
variable {c : EventConsumer} {opts : DispatcherOptions} {l : Log} {cursor : ℕ}
  {gaps burnt : List PendingGapEntry} {settled : List ℕ} {p q r : EventRow}

/-- The events of a turn's fetch. -/
def fetchOf (c : EventConsumer) (opts : DispatcherOptions) (l : Log) (cursor : ℕ)
    (gaps : List PendingGapEntry) : List EventRow :=
  selectPendingAndNewEventRows l.visibleRows cursor gaps opts.batchSize
    (pendingFetchLimit c opts.batchSize)

/-- A visible event with a lower id than a fetched one was fetched too, or is settled: the fetch of
a per-event consumer takes no new event while it leaves out a pending one. -/
theorem Owes.mem_fetch_of_lt (h : Owes l cursor gaps settled burnt) (hw : l.WF)
    (hz : opts.batchSize = 0 → gaps = []) (hb : c.batchHandler = false)
    (hr : r ∈ fetchOf c opts l cursor gaps) (hp : p ∈ l.visibleRows) (hlt : p.id < r.id) :
    p.id ∈ settled ∨ p ∈ fetchOf c opts l cursor gaps := by
  have hlimit : pendingFetchLimit c opts.batchSize = opts.batchSize := by
    simp [pendingFetchLimit, hb]
  have hvs := hw.visibleRows_sorted
  rw [fetchOf, fetch_parts hw h.ordered h.below hz, List.mem_append] at hr ⊢
  rcases Nat.lt_or_ge cursor p.id with hnew | hold
  · -- both are new
    right; right
    rcases hr with hr | hr
    · obtain ⟨g, hg, hm⟩ := (mem_pendingPart hr).2
      have := h.below g hg
      rw [mem_entry] at hm
      omega
    · by_contra hout
      have := (left_out_of_take (hvs.sublist List.filter_sublist)
        (List.mem_filter.2 ⟨hp, decide_eq_true hnew⟩) hout).2 r hr
      omega
  · have hpv := Log.mem_visibleRows.1 hp
    rcases h.accounted p hpv.1 hold with hs | hc | hg
    · exact .inl hs
    · right; left
      by_contra hout
      obtain ⟨hlen, hall⟩ := left_out_of_take (hvs.sublist List.filter_sublist)
        (List.mem_filter.2 ⟨hp, decide_eq_true hc⟩) hout
      rcases hr with hr | hr
      · have := hall r hr
        omega
      · -- the pending part takes the whole batch, so there is no new part
        have hzero : opts.batchSize -
            (pendingPart l.visibleRows gaps (pendingFetchLimit c opts.batchSize)).length = 0 := by
          unfold pendingPart
          omega
        rw [newPart, hzero, List.take_zero] at hr
        cases hr
    · exact (hg.elim (fun ha => ha.2.2 hpv.2.1) hpv.2.2).elim

/-- A visible pending event was fetched, or it lies above the id from which the capped fetch left
events out. -/
theorem Owes.mem_fetch_of_covers (h : Owes l cursor gaps settled burnt) (hw : l.WF)
    (hz : opts.batchSize = 0 → gaps = []) (hb : c.batchHandler = true)
    (hq : q ∈ l.visibleRows) (hc : Covers gaps q.id) :
    q ∈ fetchOf c opts l cursor gaps ∨
      ∃ last, leftOutAbove c (fetchOf c opts l cursor gaps) cursor
        (pendingFetchLimit c opts.batchSize) = some last ∧ last < q.id := by
  have hlimit : 0 < pendingFetchLimit c opts.batchSize := by
    simp [pendingFetchLimit, hb]
  rw [fetchOf, fetch_parts hw h.ordered h.below hz]
  by_cases hout : q ∈ pendingPart l.visibleRows gaps (pendingFetchLimit c opts.batchSize)
  · exact .inl (List.mem_append_left _ hout)
  · right
    have ⟨hlen, hall⟩ := left_out_of_take (hw.visibleRows_sorted.sublist List.filter_sublist)
      (List.mem_filter.2 ⟨hq, decide_eq_true hc⟩) hout
    have hne : pendingPart l.visibleRows gaps (pendingFetchLimit c opts.batchSize) ≠ [] := by
      intro he
      rw [pendingPart] at he
      rw [he, List.length_nil] at hlen
      omega
    refine ⟨((pendingPart l.visibleRows gaps (pendingFetchLimit c opts.batchSize)).map
      (·.id)).getLast (by simpa using hne), ?_, ?_⟩
    · have hlt : ¬ (pendingPart l.visibleRows gaps
          (pendingFetchLimit c opts.batchSize)).length < pendingFetchLimit c opts.batchSize := by
        unfold pendingPart
        omega
      simp only [leftOutAbove, hb, Bool.not_true, Bool.false_eq_true, if_false,
        pendingIdsOf_fetch h.below, List.length_map, hlt]
      exact List.getLast?_eq_some_getLast _
    · obtain ⟨e, he, hid⟩ := List.mem_map.1 (List.getLast_mem (by simpa using hne))
      exact hid ▸ hall e he

end

/-! ## The store and a consumer -/

/-- The clients' store, one consumer, and the pending events that its turn's fetch could see. -/
structure OrderedDispatch where
  store : Store
  slot : ConsumerSlot
  seen : List EventRow

/-- A step of a client or of the consumer's turns. -/
inductive OrderedAct
  | store (a : StoreAct)
  | turn (a : TurnAct)

/-- The pending events that a statement of the turn sees. -/
def pendingSeen (l : Log) (s : ConsumerSlot) : List EventRow :=
  match s.turn with
  | some t => l.visibleRows.filter fun r => Covers t.state.pendingGaps r.id
  | none => []

/-- What is recorded of a fetch. -/
def seenAfter (l : Log) (s : ConsumerSlot) (seen : List EventRow) : TurnAct → List EventRow
  | .fetch => pendingSeen l s
  | _ => seen

/-- One step of the system. -/
def orderedStep (c : EventConsumer) (opts : DispatcherOptions) (w : OrderedDispatch) :
    OrderedAct → Option OrderedDispatch
  | .store a => (w.store.step a).map fun store => { w with store }
  | .turn a => (turnStep c opts w.store.log w.slot a).map fun r =>
      { store := { w.store with log := r.1 }
        slot := r.2
        seen := seenAfter w.store.log w.slot w.seen a }

/-- The consumer is registered at the beginning of an empty store. -/
def OrderedDispatch.start : OrderedDispatch := ⟨.initial, .registered 0 [], []⟩

/-- A turn's `xmax` covers the gaps it found, and a batch lists each stream in ascending order. -/
def OrderOk (w : OrderedDispatch) : OrderedAct → Prop
  | .store a => Store.BatchAscending a
  | .turn a => XmaxOk w.store.log w.slot a

instance (w : OrderedDispatch) (a : OrderedAct) : Decidable (OrderOk w a) := by
  unfold OrderOk
  split <;> infer_instance

/-- Before a call hands over a version of a stream, the calls before it have delivered or skipped
the version below it. -/
def StreamOrder (c : EventConsumer) (l : Log) (calls : List HandlerCall) : Prop :=
  ∀ pre call post, calls = pre ++ call :: post → ∀ row ∈ call.events, row.version = 1 ∨
    ∃ p ∈ l.rows, p.stream = row.stream ∧ p.version + 1 = row.version ∧ p.id ∈ resolvedIds c pre

/-- A call that hands over a new event of a tenant hands over the tenant's pending events too, as
far as the calls before it have not delivered or skipped them. -/
def TenantOrder (c : EventConsumer) (cursor : ℕ) (pending : List EventRow)
    (calls : List HandlerCall) : Prop :=
  ∀ pre call post, calls = pre ++ call :: post → ∀ n ∈ call.events, cursor < n.id →
    ∀ q ∈ pending, q.tenantId = n.tenantId → q ∈ call.events ∨ q.id ∈ resolvedIds c pre

/-- What a consumer may rely on: a per-event consumer gets each stream in the order of its versions,
and a batch consumer gets no new event of a tenant while a pending event of the tenant that the turn
could see is left out. -/
structure DeliveryOrder (c : EventConsumer) (w : OrderedDispatch) : Prop where
  stream : c.batchHandler = false → StreamOrder c w.store.log w.slot.calls
  tenant : c.batchHandler = true → ∀ xid state d burntGaps survivingGaps,
    w.slot.turn = some ⟨xid, state, .delivered d burntGaps survivingGaps⟩ →
    TenantOrder c state.lastProcessedEventId w.seen d.calls

/-- What a turn that has fetched knows of the order of its events. -/
def FetchOrder (c : EventConsumer) (opts : DispatcherOptions) (l : Log) (state : ConsumerStateRow)
    (resolved : List ℕ) (seen events : List EventRow) : Prop :=
  (c.batchHandler = false → ∀ r ∈ events, r.version = 1 ∨
    ∃ p ∈ l.rows, p.stream = r.stream ∧ p.version + 1 = r.version ∧ p.id < r.id ∧
      (p.id ∈ resolved ∨ p ∈ events)) ∧
  (c.batchHandler = true → ∀ q ∈ seen, q ∈ l.visibleRows ∧ Covers state.pendingGaps q.id ∧
    (q ∈ events ∨ ∃ last, leftOutAbove c events state.lastProcessedEventId
      (pendingFetchLimit c opts.batchSize) = some last ∧ last < q.id))

/-- The order that a turn keeps from its fetch to its write. -/
def TurnOrder (c : EventConsumer) (opts : DispatcherOptions) (l : Log) (resolved : List ℕ)
    (seen : List EventRow) (t : Turn) : Prop :=
  match t.phase with
  | .fetched _ events => FetchOrder c opts l t.state resolved seen events
  | .delivered d _ _ => c.batchHandler = true →
    TenantOrder c t.state.lastProcessedEventId seen d.calls
  | _ => True

section
variable {c : EventConsumer} {opts : DispatcherOptions} {l l' : Log} {s : ConsumerSlot}
  {a : TurnAct} {st : Store} {seen events : List EventRow}
  {state : ConsumerStateRow} {resolved : List ℕ} {t : Turn}

theorem visibleRows_mono (he : l.Ext l') (hp : l'.pruned = []) :
    ∀ r ∈ l.visibleRows, r ∈ l'.visibleRows := fun r hr => by
  obtain ⟨hm, hc, -⟩ := Log.mem_visibleRows.1 hr
  exact Log.mem_visibleRows.2 ⟨he.rows r hm, he.xacts.committed _ hc, by simp [hp]⟩

theorem StreamOrder.ext {calls : List HandlerCall} (h : StreamOrder c l calls) (he : l.Ext l') :
    StreamOrder c l' calls := by
  intro pre call post hc row hrow
  refine (h pre call post hc row hrow).imp_right ?_
  rintro ⟨p, hp, hpe⟩
  exact ⟨p, he.rows p hp, hpe⟩

theorem FetchOrder.ext (h : FetchOrder c opts l state resolved seen events) (he : l.Ext l')
    (hp : l'.pruned = []) : FetchOrder c opts l' state resolved seen events := by
  refine ⟨fun hb r hr => (h.1 hb r hr).imp_right ?_, fun hb q hq => ?_⟩
  · rintro ⟨p, hm, hpe⟩
    exact ⟨p, he.rows p hm, hpe⟩
  · obtain ⟨hv, hc⟩ := h.2 hb q hq
    exact ⟨visibleRows_mono he hp q hv, hc⟩

theorem TurnOrder.ext (h : TurnOrder c opts l resolved seen t) (he : l.Ext l')
    (hp : l'.pruned = []) : TurnOrder c opts l' resolved seen t := by
  obtain ⟨xid, state, phase⟩ := t
  cases phase with
  | fetched => exact FetchOrder.ext h he hp
  | delivered => exact h
  | acquired | xminRead | persisted | skipped => trivial

/-- The fetch of a turn establishes its order. -/
theorem Owes.fetchOrder {gaps burnt : List PendingGapEntry} {settled : List ℕ}
    (h : Owes st.log state.lastProcessedEventId state.pendingGaps settled burnt)
    (hi : Store.SessionInv st) (hv : Store.StreamInv True st)
    (hz : opts.batchSize = 0 → state.pendingGaps = []) (hg : gaps = state.pendingGaps) :
    FetchOrder c opts st.log state settled
      (st.log.visibleRows.filter fun r => Covers gaps r.id)
      (fetchOf c opts st.log state.lastProcessedEventId state.pendingGaps) := by
  subst hg
  refine ⟨fun hb r hr => ?_, fun hb q hq => ?_⟩
  · have hrv : r ∈ st.log.visibleRows := by
      rw [fetchOf, fetch_parts hi.log h.ordered h.below hz] at hr
      exact (List.mem_append.1 hr).elim (fun h => (mem_pendingPart h).1) fun h => (mem_newPart h).1
    obtain ⟨hrm, hrc, -⟩ := Log.mem_visibleRows.1 hrv
    refine (hv.pred r hrm fun hab => hab.2.2 hrc).imp_right ?_
    rintro (⟨p, hp, hs, hpv, hx, hid⟩ | ⟨hn, -⟩)
    · have hpc : p.xid ∈ st.log.xacts.committed := hx.elim id fun he => he ▸ hrc
      have hpvis : p ∈ st.log.visibleRows := Log.mem_visibleRows.2 ⟨hp, hpc, by simp [hi.pruned]⟩
      exact ⟨p, hp, hs, hpv, hid trivial, h.mem_fetch_of_lt hi.log hz hb hr hpvis (hid trivial)⟩
    · exact absurd trivial hn
  · obtain ⟨hqv, hqc⟩ := List.mem_filter.1 hq
    have hqc := of_decide_eq_true hqc
    exact ⟨hqv, hqc, h.mem_fetch_of_covers hi.log hz hb hqv hqc⟩

/-- The calls of a fetched turn keep the order of the streams. -/
theorem FetchOrder.streamOrder (h : FetchOrder c opts l state s.resolved seen events)
    (hb : c.batchHandler = false) (hs : events.Pairwise fun a b => a.id < b.id)
    (hr : Recorded c s) (ho : StreamOrder c l s.calls) (d : TurnDelivery)
    (hd : d.deliverable = events) {answers : HandlerAnswers} {maxAttempts : ℕ}
    (hcalls : d.calls = (deliverEvents c d.deliverable answers maxAttempts state).2)
    (hmem : ∀ call ∈ d.calls, ∀ e ∈ call.events, e ∈ d.deliverable) :
    StreamOrder c l (s.calls ++ d.calls) := by
  intro pre call post heq row hrow
  have thisTurn : ∀ pre', d.calls = pre' ++ call :: post → row.version = 1 ∨
      ∃ p ∈ l.rows, p.stream = row.stream ∧ p.version + 1 = row.version ∧
        p.id ∈ resolvedIds c (s.calls ++ pre') := by
    intro pre' hpost
    have hcall : call ∈ d.calls := hpost ▸ List.mem_append_right _ (.head _)
    refine (h.1 hb row (hd ▸ hmem call hcall row hrow)).imp_right ?_
    rintro ⟨p, hp, hs', hv, hlt, hres⟩
    refine ⟨p, hp, hs', hv, mem_resolvedIds_append.2 ?_⟩
    rcases hres with hres | hres
    · exact .inl (hr.resolved _ hres)
    · have := deliverEvents_order (hd ▸ hs) (hcalls.symm.trans hpost) row hrow p (hd ▸ hres) hlt
      refine .inr (this.resolve_left fun h => ?_)
      rw [hb] at h
      cases h.1
  rcases List.append_eq_append_iff.1 heq with ⟨pre', rfl, hpost⟩ | ⟨pre', hpre, hpost⟩
  · exact thisTurn pre' hpost
  · cases pre' with
    | nil =>
      rw [List.append_nil] at hpre
      rw [← hpre, ← List.append_nil s.calls]
      exact thisTurn [] hpost.symm
    | cons call' pre' =>
      simp only [List.cons_append, List.cons.injEq] at hpost
      obtain ⟨rfl, rfl⟩ := hpost
      exact ho pre call pre' hpre row hrow

/-- The calls of a fetched turn keep the order of the tenants. -/
theorem FetchOrder.tenantOrder (h : FetchOrder c opts l state resolved seen events)
    (hb : c.batchHandler = true) (hs : events.Pairwise fun a b => a.id < b.id)
    (hbelow : ∀ g ∈ state.pendingGaps, g.toId ≤ state.lastProcessedEventId) (xminNow : ℕ)
    (answers : HandlerAnswers) : TenantOrder c state.lastProcessedEventId seen
      (turnDelivery c opts l state xminNow events answers).calls := by
  set d := turnDelivery c opts l state xminNow events answers with hd
  have hsub : d.deliverable.Sublist events := deliverable_sublist
  have hcalls := deliverConsumerTurn_calls d hd.symm
  have hspec := deliverConsumerTurn_spec hs d hd.symm
  intro pre call post heq n hn hlt q hq htenant
  have hcall : call ∈ d.calls := heq ▸ List.mem_append_right _ (.head _)
  have hnd := hspec.calls_events call hcall n hn
  obtain ⟨hqv, hqc, hqe⟩ := h.2 hb q hq
  have hqle : q.id ≤ state.lastProcessedEventId := by
    obtain ⟨g, hg, hm⟩ := hqc
    exact hm.2.trans (hbelow g hg)
  rcases hqe with hqe | ⟨last, hlast, hlt'⟩
  · have hqd : q ∈ d.deliverable := mem_deliverable hqe hqle
    exact (deliverEvents_order (hs.sublist hsub) (hcalls.symm.trans heq) n hn q hqd
      (hqle.trans_lt hlt)).imp_left And.right
  · -- the query for the tenants left out returns the tenant of `q`
    exfalso
    refine tenant_of_mem_deliverable hlast hnd hlt (htenant ▸ ?_)
    obtain ⟨g, hg, hm⟩ := hqc
    rw [mem_entry] at hm
    refine List.mem_dedup.2 (List.mem_map.2 ⟨q, List.mem_flatMap.2 ⟨g, hg, ?_⟩, rfl⟩)
    exact List.mem_filter.2 ⟨hqv, by simp only [Bool.and_eq_true, decide_eq_true_eq]; omega⟩

end

/-! ## The invariant -/

section
variable {c : EventConsumer} {opts : DispatcherOptions} {l l' : Log} {s s' : ConsumerSlot}
  {a : TurnAct} {w w' : OrderedDispatch} {st : Store} {asc : Prop}

/-- A turn leaves the writers' transactions alone. -/
theorem TurnStep.writing (h : TurnStep c opts l s a l' s')
    (hx : ∀ t, s.turn = some t → l.Reading t.xid) (hw : l.WF) {y : ℕ} (hy : l.Writing y) :
    l'.Writing y := by
  have ne : ∀ {x}, l.Reading x → y ≠ x := fun hr he => hr.1 (he ▸ hy.1)
  cases h with
  | acquire | acquireSkip => exact ⟨hy.1, .tail _ hy.2⟩
  | readXmin | fetch | deliverNothing | deliver | readXmax => exact hy
  | commit ht | commitSkipped ht | abort ht =>
    exact ⟨hy.1, (List.mem_erase_of_ne (ne (hx _ ht))).2 hy.2⟩
  | recordFailure =>
    refine ⟨hy.1, (List.mem_erase_of_ne fun he => ?_).2 (.tail _ hy.2)⟩
    exact Nat.lt_irrefl _ (he ▸ hw.writers_lt y hy.1)

/-- The store's sessions when the log moves on by a step that is not theirs. -/
theorem Store.SessionInv.withLog (h : Store.SessionInv st) (he : st.log.Ext l) (hw : l.WF)
    (hp : l.pruned = st.log.pruned) (hy : ∀ y, st.log.Writing y → l.Writing y) :
    Store.SessionInv { st with log := l } where
  log := hw
  pruned := hp.trans h.pruned
  session k := (h.session k).frame (fun x hx => hy x ((h.session k).xid x hx)) le_rfl
    (fun _ => .inl) fun _ => .inl
  distinct := h.distinct
  write_lt := h.write_lt
  failure_lt := h.failure_lt
  failed f hf w hw' hc := (h.failed f hf w hw' hc).ext he.xacts
  row w hw' := by
    obtain ⟨r, hr, hpe⟩ := h.row w hw'
    exact ⟨r, he.rows r hr, hpe⟩
  ids := h.ids

theorem Store.StreamInv.withLog (h : Store.StreamInv asc st) (hi : Store.SessionInv st)
    (he : st.log.Ext l) (hp : l.pruned = st.log.pruned) (hr : l.rows = st.log.rows) :
    Store.StreamInv asc { st with log := l } :=
  h.of_rows he hr (fun _ _ hx => .inr (.inr ⟨hx, rfl⟩)) fun k c hc =>
    (h.phase k c hc).mono (Store.view_mono he (hp.trans hi.pruned) fun _ hx => hx)

/-- The invariant of the store and the consumer. -/
structure OrderInv (c : EventConsumer) (opts : DispatcherOptions) (w : OrderedDispatch) : Prop where
  sessions : Store.SessionInv w.store
  streams : Store.StreamInv True w.store
  slot : SlotInv c opts [] w.store.log w.slot
  recorded : Recorded c w.slot
  turn : ∀ t, w.slot.turn = some t → TurnOrder c opts w.store.log w.slot.resolved w.seen t
  calls : c.batchHandler = false → StreamOrder c w.store.log w.slot.calls

theorem orderInv_start : OrderInv c opts .start where
  sessions := Store.sessionInv_initial
  streams := Store.streamInv_initial True
  slot := (dispatchInv_start (c := c)).slot
  recorded := (show DispatchInv c opts .start from dispatchInv_start).recorded
  turn := ConsumerSlot.no_turn rfl
  calls _ pre call post h := by
    have := congrArg List.length h
    simp [OrderedDispatch.start, ConsumerSlot.registered] at this

/-- What a step of a turn does to the order it keeps. -/
theorem OrderInv.turn_step (h : OrderInv c opts w) (hs : TurnStep c opts w.store.log w.slot a l' s') :
    (∀ t, s'.turn = some t →
      TurnOrder c opts w.store.log s'.resolved (seenAfter w.store.log w.slot w.seen a) t) ∧
    (c.batchHandler = false → StreamOrder c w.store.log s'.calls) := by
  cases hs with
  | acquire | acquireSkip | readXmin | deliverNothing | readXmax =>
    refine ⟨?_, h.calls⟩
    rintro _ ⟨⟩
    trivial
  | @fetch xid xminNow state ht =>
    refine ⟨?_, h.calls⟩
    rintro _ ⟨⟩
    obtain ⟨h₁, h₂⟩ := h.slot.turn_state _ ht
    have ho := h.slot.owes
    rw [← h₁, ← h₂] at ho
    have := ho.fetchOrder h.sessions h.streams (fun hz => h₂.trans (h.slot.batch hz)) (c := c) rfl
    simpa only [TurnOrder, seenAfter, pendingSeen, ht, List.nil_append, fetchOf] using this
  | @deliver xid xminNow state events answers ht hne =>
    have hf : FetchOrder c opts w.store.log state w.slot.resolved w.seen events := h.turn _ ht
    obtain ⟨-, hfs⟩ := h.slot.turn_phase _ ht
    have hbelow : ∀ g ∈ state.pendingGaps, g.toId ≤ state.lastProcessedEventId := by
      obtain ⟨h₁, h₂⟩ := h.slot.turn_state _ ht
      simp only at h₁ h₂
      rw [h₁, h₂]
      exact h.slot.owes.below
    refine ⟨?_, fun hb => ?_⟩
    · rintro _ ⟨⟩ hb
      exact hf.tenantOrder hb hfs.sorted hbelow xminNow answers
    · exact hf.streamOrder hb hfs.sorted h.recorded (h.calls hb) _ (deliverable_of_perEvent hb)
        (deliverConsumerTurn_calls _ rfl) (deliverConsumerTurn_spec hfs.sorted _ rfl).calls_events
  | commit | commitSkipped | abort => exact ⟨ConsumerSlot.no_turn rfl, h.calls⟩
  | recordFailure hn => exact ⟨ConsumerSlot.no_turn hn, h.calls⟩

theorem OrderInv.step {a : OrderedAct} (h : OrderInv c opts w) (hok : OrderOk w a)
    (hs : orderedStep c opts w a = some w') : OrderInv c opts w' := by
  cases a with
  | store a =>
    obtain ⟨st, hst, rfl⟩ := Option.map_eq_some_iff.1 hs
    have hst := Store.StoreStep.of_step hst
    obtain ⟨he, hw, hp⟩ := h.sessions.step_log hst
    refine ⟨h.sessions.step hst, h.streams.step h.sessions (fun _ => hok) hst,
      h.slot.ext h.sessions.log hw he fun t ht => ?_, h.recorded,
      fun t ht => (h.turn t ht).ext he hp, fun hb => (h.calls hb).ext he⟩
    have hr := h.slot.turn_xid t ht
    rcases hst.log with heq | ⟨la, hl⟩
    · exact heq ▸ hr
    · exact hr.step h.sessions.log hl
  | turn a =>
    obtain ⟨⟨l', s'⟩, hl, rfl⟩ := Option.map_eq_some_iff.1 hs
    have hl := TurnStep.of_turnStep hl
    have ⟨he, hw, hp, hr⟩ := hl.ext h.slot.turn_xid h.sessions.log
    have ⟨ht, hc⟩ := h.turn_step hl
    exact ⟨h.sessions.withLog he hw hp fun y hy => hl.writing h.slot.turn_xid h.sessions.log hy,
      h.streams.withLog h.sessions he hp hr, h.slot.step h.sessions.log hok hl, h.recorded.step hl,
      fun t ht' => (ht t ht').ext he (hp.trans h.sessions.pruned), fun hb => (hc hb).ext he⟩

/-- In every run whose turns read an `xmax` that covers the gaps they found, and whose batches list
each stream in ascending order, a consumer gets its events in order. -/
theorem delivery_order_of_run (hr : Run (orderedStep c opts) OrderOk .start w) :
    DeliveryOrder c w := by
  have h := hr.invariant orderInv_start fun _ _ _ => OrderInv.step
  exact ⟨h.calls, fun hb _ _ _ _ _ ht => h.turn _ ht hb⟩

end

/-! ## The version that is skipped -/

/-- Client 0 draws the first event id for version 1 of stream `a`; client 1 commits another event.
After the turns client 0 commits, client 2 writes version 2 of `a`, and a last turn delivers. Client 0
and client 1 claim their transaction ids in the given order. -/
def lateVersion (claims : List ℕ) (turns : List TurnAct) : List OrderedAct :=
  [.store (.call 0 (.append (Store.orderEvent "a" 0))), .store (.call 1 (.append (Store.orderEvent "b" 0)))] ++
  claims.map (fun k => .store (.run k 0)) ++ .replicate 3 (.store (.run 0 0)) ++
  .replicate 6 (.store (.run 1 0)) ++ turns.map .turn ++ .replicate 3 (.store (.run 0 0)) ++
  [.store (.call 2 (.append (Store.orderEvent "a" 1)))] ++ .replicate 7 (.store (.run 2 0)) ++
  (fullTurn .allOk).map .turn

/-- Client 0 has the lower transaction id: the gap survives, and version 1 comes before version 2. -/
theorem delivery_order_of_run_lateVersion : ∃ w : OrderedDispatch,
    DeliveryOrder perEventConsumer w ∧ w.slot.resolved = [2, 1, 3] := by
  have ⟨w, hr, hw⟩ := exists_run_of_execOk (orderedStep perEventConsumer .default)
    (fun w a => OrderOk w a) .start (lateVersion [0, 1] (fullTurn .allOk))
    (fun w => w.slot.resolved == [2, 1, 3]) (fun _ _ => of_decide_eq_true) (by decide +kernel)
    (by decide +kernel)
  exact ⟨w, delivery_order_of_run hr, eq_of_beq hw⟩

/-- Client 0 has the higher transaction id: the second turn takes the gap for burnt, and the consumer
gets version 2 of the stream and never version 1. -/
theorem not_delivery_order : ¬ ∀ (c : EventConsumer) (opts : DispatcherOptions)
    (w : OrderedDispatch), Run (orderedStep c opts) (fun _ _ => True) .start w →
    DeliveryOrder c w := fun h => by
  obtain ⟨w, hr, hw⟩ := exists_run_of_exec (orderedStep perEventConsumer .default) .start
    (lateVersion [1, 0] (fullTurn .allOk ++ fullTurn .allOk))
    (fun w => match w.slot.calls with
      | [call₁, call₂] => resolvedIds perEventConsumer [call₁] == [2] && call₂.events.any fun row =>
          row.version == 2 && w.store.log.rows.all fun p => p.id != 2 || p.stream != row.stream
      | [] | [_] | _ :: _ :: _ :: _ => false) (by decide +kernel)
  have ho := (h _ _ w hr).stream rfl
  split at hw
  · next call₁ call₂ hcalls =>
    simp only [Bool.and_eq_true, beq_iff_eq, List.any_eq_true, List.all_eq_true, Bool.or_eq_true,
      bne_iff_ne] at hw
    obtain ⟨hres, row, hrow, hv, hall⟩ := hw
    rcases ho [call₁] call₂ [] hcalls row hrow with h₁ | ⟨p, hp, hs, -, hid⟩
    · omega
    · rw [hres, List.mem_singleton] at hid
      exact (hall p hp).elim (fun h => h hid) fun h => h hs
  all_goals cases hw

end Kumiko
