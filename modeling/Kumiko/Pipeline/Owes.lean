import Kumiko.Pipeline.ProcessConsumer

/-!
# What a consumer owes

The invariant of a consumer's row: what the log holds up to the cursor is settled, lies in a pending gap, or is
gone for good (`Owes.accounted`), and a transaction that may still bring a row into a gap has an id below the
gap's `xmax` (`Owes.bound`). That holds of a new gap only under `XmaxCovers`. Each phase of a turn has an
invariant (`PhaseInv`) that survives whatever the others do (`Log.Ext`).
-/

namespace Kumiko

open Span

/-- The row will never be visible again: its transaction rolled back, or retention deleted it. -/
def Log.Gone (l : Log) (r : EventRow) : Prop := l.xacts.Aborted r.xid ∨ r.id ∈ l.pruned

/-- The ranges hold no id of a running writer and only rows that are gone. -/
structure Log.Dropped (l : Log) (gaps : List PendingGapEntry) : Prop where
  draws : ∀ d ∈ l.draws, Covers gaps d.1 → d.2 ∉ l.xacts.running
  rows : ∀ r ∈ l.rows, Covers gaps r.id → l.Gone r

/-- The invariant of a consumer with this cursor and these gaps that has settled these ids and
dropped these ranges. -/
structure Owes (l : Log) (cursor : ℕ) (gaps : List PendingGapEntry) (settled : List ℕ)
    (burnt : List PendingGapEntry) : Prop where
  /-- The gaps are sorted and pairwise disjoint. -/
  ordered : Ordered gaps
  /-- They lie at or below the cursor. -/
  below : ∀ g ∈ gaps, g.toId ≤ cursor
  /-- The cursor has not passed an id that is still to be drawn. -/
  cursor_lt : cursor < l.nextId
  /-- Every row up to the cursor is settled, in a gap, or gone. -/
  accounted : ∀ r ∈ l.rows, r.id ≤ cursor → r.id ∈ settled ∨ Covers gaps r.id ∨ l.Gone r
  /-- An id up to the cursor that may still get a row is in a gap. -/
  held : ∀ d ∈ l.draws, d.2 ∈ l.xacts.running → d.1 ≤ cursor → Covers gaps d.1
  /-- A transaction that may still bring a row into a gap is below the gap's bound. -/
  bound : ∀ g ∈ gaps, ∀ d ∈ l.draws, Mem g d.1 → d.2 ∈ l.xacts.running → d.2 < g.xmax
  /-- Dropped ranges lie at or below the cursor. -/
  burnt_below : ∀ g ∈ burnt, g.toId ≤ cursor
  /-- Only ids that cannot get a row any more and rows that are gone were dropped as burnt. -/
  burnt_gone : l.Dropped burnt
  /-- What is settled is committed, at or below the cursor and in no gap. -/
  settled_mem : ∀ id ∈ settled, id ≤ cursor ∧ ¬ Covers gaps id ∧
    ∃ r ∈ l.rows, r.id = id ∧ r.xid ∈ l.xacts.committed
  /-- Nothing is settled twice. -/
  nodup : settled.Nodup

section
variable {l l' : Log} {cursor : ℕ} {gaps burnt : List PendingGapEntry} {settled : List ℕ}
  {d : ℕ × ℕ} {r : EventRow}

theorem Log.Gone.ext (h : l.Gone r) (he : l.Ext l') : l'.Gone r :=
  h.imp (fun h => h.ext he.xacts) fun h => he.pruned _ h

/-- A drawn id below the sequence is not new. -/
theorem Log.Ext.old_draw (he : l.Ext l') (hd : d ∈ l'.draws) (hid : d.1 < l.nextId) :
    d ∈ l.draws :=
  (he.draws_since d hd).resolve_right (Nat.not_le.2 hid)

/-- A writer that runs now and drew an old id ran before. -/
theorem Log.Ext.old_running (he : l.Ext l') (hw : l.WF) (hd : d ∈ l.draws)
    (hx : d.2 ∈ l'.xacts.running) : d.2 ∈ l.xacts.running :=
  he.xacts.running _ hx (hw.draw_xid_lt hd)

/-- A row with an old id was there before, or its writer was running. -/
theorem Log.Ext.old_row (he : l.Ext l') (hw : l.WF) (hw' : l'.WF) (hr : r ∈ l'.rows)
    (hid : r.id < l.nextId) : r ∈ l.rows ∨ r.xid ∈ l.xacts.running := by
  rcases he.rows_since r hr with hr | hx | hx
  · exact .inl hr
  · exact .inr hx
  · have := hw.draw_xid_lt (he.old_draw (hw'.drawn r hr) hid)
    exact absurd this (Nat.not_lt.2 hx)

/-- Dropped ranges below the sequence stay dropped. -/
theorem Log.Dropped.ext {gs : List PendingGapEntry} (h : l.Dropped gs) (hw : l.WF) (hw' : l'.WF)
    (he : l.Ext l') (hb : ∀ g ∈ gs, g.toId < l.nextId) : l'.Dropped gs where
  draws d hd hc hx := by
    obtain ⟨g, hg, hm⟩ := hc
    have hd := he.old_draw hd (hm.2.trans_lt (hb g hg))
    exact h.draws d hd ⟨g, hg, hm⟩ (he.old_running hw hd hx)
  rows r hr hc := by
    obtain ⟨g, hg, hm⟩ := hc
    have hid := hm.2.trans_lt (hb g hg)
    rcases he.old_row hw hw' hr hid with hr' | hx
    · exact (h.rows r hr' ⟨g, hg, hm⟩).ext he
    · exact absurd hx (h.draws _ (he.old_draw (hw'.drawn r hr) hid) ⟨g, hg, hm⟩)

/-- The invariant survives the other parties' steps. -/
theorem Owes.ext (h : Owes l cursor gaps settled burnt) (hw : l.WF) (hw' : l'.WF)
    (he : l.Ext l') : Owes l' cursor gaps settled burnt where
  ordered := h.ordered
  below := h.below
  cursor_lt := h.cursor_lt.trans_le he.nextId
  accounted r hr hle := by
    have hid := hle.trans_lt h.cursor_lt
    rcases he.old_row hw hw' hr hid with hr' | hx
    · exact (h.accounted r hr' hle).imp_right fun h => h.imp_right fun h => h.ext he
    · exact .inr (.inl (h.held _ (he.old_draw (hw'.drawn r hr) hid) hx hle))
  held d hd hx hle := by
    have hd := he.old_draw hd (hle.trans_lt h.cursor_lt)
    exact h.held d hd (he.old_running hw hd hx) hle
  bound g hg d hd hm hx := by
    have hd := he.old_draw hd ((hm.2.trans (h.below g hg)).trans_lt h.cursor_lt)
    exact h.bound g hg d hd hm (he.old_running hw hd hx)
  burnt_below := h.burnt_below
  burnt_gone := h.burnt_gone.ext hw hw' he fun g hg => (h.burnt_below g hg).trans_lt h.cursor_lt
  settled_mem id hid := by
    have ⟨h₁, h₂, r, hr, h₃, h₄⟩ := h.settled_mem id hid
    exact ⟨h₁, h₂, r, he.rows r hr, h₃, he.xacts.committed _ h₄⟩
  nodup := h.nodup

end

/-! ## The phases of a turn -/

/-- Every running writer that has drawn an id inside the ranges is below the log's `xmax`. -/
def XmaxCovers (l : Log) (bounds : List (ℕ × ℕ)) : Prop :=
  ∀ d ∈ l.draws, d.2 ∈ l.xacts.running → Covers (gapEntries 0 bounds) d.1 → d.2 < l.xacts.xmax

instance (l : Log) (bounds : List (ℕ × ℕ)) : Decidable (XmaxCovers l bounds) :=
  inferInstanceAs (Decidable (∀ d ∈ l.draws, _))

/-- No gap that `xmin` has passed can get another row. -/
def XminSound (l : Log) (gaps : List PendingGapEntry) (xminNow : ℕ) : Prop :=
  ∀ g ∈ gaps, g.xmax ≤ xminNow → ∀ d ∈ l.draws, Mem g d.1 → d.2 ∉ l.xacts.running

/-- What a turn knows of the events it fetched. -/
structure FetchSound (l : Log) (cursor : ℕ) (gaps : List PendingGapEntry)
    (burntGaps : List PendingGapEntry) (events : List EventRow) : Prop where
  /-- The events ascend. -/
  sorted : events.Pairwise fun a b => a.id < b.id
  /-- They are committed rows of the log, new or pending. -/
  mem : ∀ e ∈ events, e ∈ l.rows ∧ e.xid ∈ l.xacts.committed ∧ (cursor < e.id ∨ Covers gaps e.id)
  /-- A gap that the fetch proves burnt may be dropped. -/
  burnt : l.Dropped burntGaps

/-- The invariant of a turn's phase, over the row the turn locked and what the consumer has
settled and dropped before. -/
def PhaseInv (c : EventConsumer) (opts : DispatcherOptions) (l : Log) (state : ConsumerStateRow)
    (settled : List ℕ) (burnt : List PendingGapEntry) : TurnPhase → Prop
  | .acquired | .skipped => True
  | .xminRead xminNow => XminSound l state.pendingGaps xminNow
  | .fetched xminNow events =>
    (opts.batchSize = 0 → events = []) ∧
    FetchSound l state.lastProcessedEventId state.pendingGaps
      (burntAndSurviving c opts state xminNow events).1 events
  | .delivered d burntGaps survivingGaps =>
    opts.batchSize ≠ 0 ∧
    FetchSound l state.lastProcessedEventId survivingGaps burntGaps d.deliverable ∧
    DeliverySpec c state.lastProcessedEventId d.deliverable d.outcome d.calls ∧
    survivingGaps.Sublist state.pendingGaps ∧ (∀ g ∈ burntGaps, g ∈ state.pendingGaps) ∧
    ∀ id, Covers state.pendingGaps id → Covers burntGaps id ∨ Covers survivingGaps id
  | .persisted row resolved burntGaps =>
    opts.batchSize ≠ 0 ∧
    Owes l row.lastProcessedEventId row.pendingGaps (settled ++ resolved) (burnt ++ burntGaps)

/-- The invariant of a consumer: its row's, and that of the turn that holds the row, whose
transaction is in progress. `base` are the ids settled before the first turn. -/
structure SlotInv (c : EventConsumer) (opts : DispatcherOptions) (base : List ℕ) (l : Log)
    (s : ConsumerSlot) : Prop where
  owes : Owes l s.row.lastProcessedEventId s.row.pendingGaps (base ++ s.resolved) s.burnt
  /-- A dispatcher whose batches are empty finds no gap. -/
  batch : opts.batchSize = 0 → s.row.pendingGaps = []
  /-- The turn goes on from the row it locked. -/
  turn_state : ∀ t, s.turn = some t → t.state.lastProcessedEventId = s.row.lastProcessedEventId ∧
    t.state.pendingGaps = s.row.pendingGaps
  turn_xid : ∀ t, s.turn = some t → l.Reading t.xid
  turn_phase : ∀ t, s.turn = some t → PhaseInv c opts l t.state (base ++ s.resolved) s.burnt t.phase

section
variable {c : EventConsumer} {opts : DispatcherOptions} {base : List ℕ} {l l' : Log}
  {s : ConsumerSlot} {cursor : ℕ} {gaps burnt burntGaps : List PendingGapEntry}
  {settled : List ℕ} {events : List EventRow} {state : ConsumerStateRow}

theorem XminSound.ext {xminNow : ℕ} (h : XminSound l gaps xminNow)
    (ho : Owes l cursor gaps settled burnt) (hw : l.WF) (he : l.Ext l') :
    XminSound l' gaps xminNow := fun g hg hx d hd hm hrun => by
  have hd := he.old_draw hd ((hm.2.trans (ho.below g hg)).trans_lt ho.cursor_lt)
  exact h g hg hx d hd hm (he.old_running hw hd hrun)

theorem FetchSound.ext (h : FetchSound l cursor gaps burntGaps events)
    {gaps' : List PendingGapEntry} (ho : Owes l cursor gaps' settled burnt)
    (hb : ∀ g ∈ burntGaps, g ∈ gaps') (hw : l.WF) (hw' : l'.WF) (he : l.Ext l') :
    FetchSound l' cursor gaps burntGaps events where
  sorted := h.sorted
  mem e hm := have ⟨h₁, h₂, h₃⟩ := h.mem e hm; ⟨he.rows e h₁, he.xacts.committed _ h₂, h₃⟩
  burnt := h.burnt.ext hw hw' he fun g hg => (ho.below g (hb g hg)).trans_lt ho.cursor_lt

/-- The phases survive the other parties' steps. -/
theorem PhaseInv.ext {phase : TurnPhase}
    (h : PhaseInv c opts l state settled burnt phase)
    (ho : Owes l state.lastProcessedEventId state.pendingGaps settled burnt)
    (hw : l.WF) (hw' : l'.WF) (he : l.Ext l') : PhaseInv c opts l' state settled burnt phase := by
  cases phase with
  | acquired | skipped => trivial
  | xminRead => exact XminSound.ext h ho hw he
  | fetched => exact ⟨h.1, h.2.ext ho (fun g hg => (mem_burnt.1 hg).1) hw hw' he⟩
  | delivered =>
    obtain ⟨hz, hf, hd, hsub, hb, hp⟩ := h
    exact ⟨hz, hf.ext ho hb hw hw' he, hd, hsub, hb, hp⟩
  | persisted => exact ⟨h.1, h.2.ext hw hw' he⟩

/-- A consumer's invariant survives the other parties' steps, as long as they leave its turn's
transaction alone. -/
theorem SlotInv.ext (h : SlotInv c opts base l s) (hw : l.WF) (hw' : l'.WF) (he : l.Ext l')
    (hx : ∀ t, s.turn = some t → l'.Reading t.xid) : SlotInv c opts base l' s where
  owes := h.owes.ext hw hw' he
  batch := h.batch
  turn_state := h.turn_state
  turn_xid := hx
  turn_phase t ht := by
    have ⟨h₁, h₂⟩ := h.turn_state t ht
    exact (h.turn_phase t ht).ext (h₁ ▸ h₂ ▸ h.owes) hw hw' he

end

/-! ## The steps of a turn -/

section
variable {c : EventConsumer} {opts : DispatcherOptions} {base : List ℕ} {l l' : Log}
  {s s' : ConsumerSlot} {a : TurnAct} {cursor xminNow : ℕ}
  {gaps burnt burntGaps survivingGaps : List PendingGapEntry} {settled : List ℕ}
  {events : List EventRow} {state : ConsumerStateRow} {d : TurnDelivery}

/-- `xmin` is read: a gap whose bound it has reached has no running writer left. -/
theorem Owes.xminSound (h : Owes l cursor gaps settled burnt) :
    XminSound l gaps (if gaps.isEmpty then 0 else l.xacts.xmin) := fun g hg hx d hd hm hrun => by
  have hne : gaps.isEmpty = false := by
    cases gaps with
    | nil => cases hg
    | cons => rfl
  rw [hne] at hx
  exact Xacts.finished_of_le_xmin hx (h.bound g hg d hd hm hrun) hrun

theorem pendingFetchLimit_le (hz : opts.batchSize ≠ 0) :
    pendingFetchLimit c opts.batchSize ≤ opts.batchSize := by
  unfold pendingFetchLimit
  split <;> omega

/-- The two parts of a turn's fetch. -/
theorem fetch_parts (hw : l.WF) (ho : Ordered gaps) (hb : ∀ g ∈ gaps, g.toId ≤ cursor)
    (hz : opts.batchSize = 0 → gaps = []) :
    selectPendingAndNewEventRows l.visibleRows cursor gaps opts.batchSize
        (pendingFetchLimit c opts.batchSize) =
      pendingPart l.visibleRows gaps (pendingFetchLimit c opts.batchSize) ++
        newPart l.visibleRows cursor (opts.batchSize -
          (pendingPart l.visibleRows gaps (pendingFetchLimit c opts.batchSize)).length) := by
  refine selectPendingAndNewEventRows_eq hw.visibleRows_sorted ho hb ?_
  by_cases hz' : opts.batchSize = 0
  · exact .inr (hz hz')
  · exact .inl (pendingFetchLimit_le hz')

theorem mem_pendingPart {visible : List EventRow} {n : ℕ} {e : EventRow}
    (h : e ∈ pendingPart visible gaps n) : e ∈ visible ∧ Covers gaps e.id := by
  have := List.mem_filter.1 (List.mem_of_mem_take h)
  exact ⟨this.1, of_decide_eq_true this.2⟩

theorem mem_newPart {visible : List EventRow} {n : ℕ} {e : EventRow}
    (h : e ∈ newPart visible cursor n) : e ∈ visible ∧ cursor < e.id := by
  have := List.mem_filter.1 (List.mem_of_mem_take h)
  exact ⟨this.1, of_decide_eq_true this.2⟩

/-- The pending ids of a fetch are those of its pending part. -/
theorem pendingIdsOf_fetch (hb : ∀ g ∈ gaps, g.toId ≤ cursor) {visible : List EventRow} {m n : ℕ} :
    pendingIdsOf (pendingPart visible gaps m ++ newPart visible cursor n) cursor =
      (pendingPart visible gaps m).map (·.id) := by
  have h₁ : (pendingPart visible gaps m).filter (fun e => e.id ≤ cursor) =
      pendingPart visible gaps m := List.filter_eq_self.2 fun e he => by
    obtain ⟨g, hg, hm⟩ := (mem_pendingPart he).2
    exact decide_eq_true (hm.2.trans (hb g hg))
  have h₂ : (newPart visible cursor n).filter (fun e => e.id ≤ cursor) = [] :=
    List.filter_eq_nil_iff.2 fun e he => by
      have := (mem_newPart he).2
      simp only [decide_eq_true_eq]
      omega
  rw [pendingIdsOf, List.filter_append, h₁, h₂, List.append_nil]

/-- A row that the snapshot of a fetch sees lies in no gap that the fetch proves burnt, for the fetch
would have returned it. -/
theorem not_burnt_of_visible (hw : l.WF) (ho : Ordered state.pendingGaps)
    (hb : ∀ g ∈ state.pendingGaps, g.toId ≤ state.lastProcessedEventId)
    (hz : opts.batchSize = 0 → state.pendingGaps = []) {r : EventRow} (hr : r ∈ l.visibleRows) :
    ¬ Covers (burntAndSurviving c opts state xminNow
      (selectPendingAndNewEventRows l.visibleRows state.lastProcessedEventId state.pendingGaps
        opts.batchSize (pendingFetchLimit c opts.batchSize))).1 r.id := by
  rw [fetch_parts hw ho hb hz]
  set limit := pendingFetchLimit c opts.batchSize with hlimit
  rintro ⟨g, hg, hm⟩
  simp only [burntAndSurviving, pendingIdsOf_fetch hb, List.length_map] at hg
  have ⟨hg, hburnt⟩ := mem_burnt.1 hg
  obtain ⟨hnone, hpast, -⟩ := isBurnt_iff.1 hburnt
  have hin : r ∈ l.visibleRows.filter fun r => Covers state.pendingGaps r.id :=
    List.mem_filter.2 ⟨hr, decide_eq_true ⟨g, hg, hm⟩⟩
  have hout : r ∉ pendingPart l.visibleRows state.pendingGaps limit := fun hp =>
    hnone r.id (List.mem_map_of_mem hp) hm
  have ⟨hlen, hlt⟩ := left_out_of_take (hw.visibleRows_sorted.sublist List.filter_sublist) hin hout
  obtain ⟨m, hlast, hto⟩ := hpast (decide_eq_true hlen)
  obtain ⟨e, he, rfl⟩ := List.mem_map.1 (List.mem_of_getLast? hlast)
  have := hlt e he
  rw [mem_entry] at hm
  omega

/-- A fetch returns visible rows, pending or new, in the order of their ids. -/
theorem fetch_rows (hw : l.WF) (ho : Ordered gaps) (hb : ∀ g ∈ gaps, g.toId ≤ cursor)
    (hz : opts.batchSize = 0 → gaps = []) :
    (selectPendingAndNewEventRows l.visibleRows cursor gaps opts.batchSize
      (pendingFetchLimit c opts.batchSize)).Pairwise (fun a b => a.id < b.id) ∧
    ∀ e ∈ selectPendingAndNewEventRows l.visibleRows cursor gaps opts.batchSize
      (pendingFetchLimit c opts.batchSize), e ∈ l.visibleRows ∧ (cursor < e.id ∨ Covers gaps e.id) := by
  rw [fetch_parts hw ho hb hz]
  have hvs := hw.visibleRows_sorted
  refine ⟨List.pairwise_append.2
    ⟨hvs.sublist ((List.take_sublist _ _).trans List.filter_sublist),
      hvs.sublist ((List.take_sublist _ _).trans List.filter_sublist), fun a ha b hb' => ?_⟩,
    fun e he => ?_⟩
  · obtain ⟨g, hg, hm⟩ := (mem_pendingPart ha).2
    exact (hm.2.trans (hb g hg)).trans_lt (mem_newPart hb').2
  · rcases List.mem_append.1 he with he | he
    · have ⟨h₁, h₂⟩ := mem_pendingPart he
      exact ⟨h₁, .inr h₂⟩
    · have ⟨h₁, h₂⟩ := mem_newPart he
      exact ⟨h₁, .inl h₂⟩

/-- A dispatcher whose batches are empty fetches nothing. -/
theorem fetch_eq_nil {visible : List EventRow} {pendingLimit : ℕ} (hz : opts.batchSize = 0) :
    selectPendingAndNewEventRows visible cursor gaps opts.batchSize pendingLimit = [] := by
  simp [selectPendingAndNewEventRows, hz]

/-- The fetch is sound: a gap it proves burnt has no running writer, and no row in it is visible,
for the fetch would have returned it. -/
theorem Owes.fetchSound
    (h : Owes l state.lastProcessedEventId state.pendingGaps settled burnt) (hw : l.WF)
    (hz : opts.batchSize = 0 → state.pendingGaps = [])
    (hx : XminSound l state.pendingGaps xminNow) :
    PhaseInv c opts l state settled burnt (.fetched xminNow
      (selectPendingAndNewEventRows l.visibleRows state.lastProcessedEventId state.pendingGaps
        opts.batchSize (pendingFetchLimit c opts.batchSize))) := by
  have ⟨hsorted, hmem⟩ := fetch_rows (c := c) hw h.ordered h.below hz
  refine ⟨fetch_eq_nil, hsorted, fun e he => ?_, ⟨fun d hd hc hx' => ?_, fun r hr hc => ?_⟩⟩
  · have ⟨hvis, howed⟩ := hmem e he
    have ⟨hrow, hcom, _⟩ := Log.mem_visibleRows.1 hvis
    exact ⟨hrow, hcom, howed⟩
  · obtain ⟨g, hg, hm⟩ := hc
    have ⟨hg, hburnt⟩ := mem_burnt.1 hg
    exact hx g hg (isBurnt_iff.1 hburnt).2.2 d hd hm hx'
  · have hc' := hc
    obtain ⟨g, hg, hm⟩ := hc
    have ⟨hg, hburnt⟩ := mem_burnt.1 hg
    have hxmin := (isBurnt_iff.1 hburnt).2.2
    rcases Xacts.trichotomy (hw.xid_lt hr) with hrun | hcom | hab
    · exact absurd hrun (hx g hg hxmin _ (hw.drawn r hr) hm)
    · by_contra hgone
      have hvis : r ∈ l.visibleRows :=
        Log.mem_visibleRows.2 ⟨hr, hcom, fun hp => hgone (.inr hp)⟩
      exact not_burnt_of_visible hw h.ordered h.below hz hvis hc'
    · exact .inl hab

/-- The delivery of a fetched turn. -/
theorem PhaseInv.deliver {answers : HandlerAnswers}
    (h : PhaseInv c opts l state settled burnt (.fetched xminNow events))
    (ho : Owes l state.lastProcessedEventId state.pendingGaps settled burnt)
    (hz : opts.batchSize = 0 → state.pendingGaps = [])
    (hne : ¬ (events = [] ∧ (burntAndSurviving c opts state xminNow events).1 = [])) :
    PhaseInv c opts l state settled burnt (.delivered
      (turnDelivery c opts l state xminNow events answers)
      (burntAndSurviving c opts state xminNow events).1
      (burntAndSurviving c opts state xminNow events).2) := by
  obtain ⟨hze, hf⟩ := h
  have hsub : (turnDelivery c opts l state xminNow events answers).deliverable.Sublist events :=
    deliverable_sublist
  refine ⟨fun hz' => hne ⟨hze hz', ?_⟩, ⟨hf.sorted.sublist hsub, fun e he => ?_, hf.burnt⟩,
    deliverConsumerTurn_spec hf.sorted _ rfl, surviving_sublist, fun g hg => (mem_burnt.1 hg).1,
    fun id hid => covers_burnt_or_surviving hid⟩
  · simp [burntAndSurviving, partitionBurntGaps, hz hz']
  · have he := hsub.subset he
    obtain ⟨h₁, h₂, h₃⟩ := hf.mem e he
    refine ⟨h₁, h₂, h₃.imp_right fun hc => ?_⟩
    refine (covers_burnt_or_surviving hc).resolve_left ?_
    -- the event itself was fetched, so its gap is not burnt
    rintro ⟨g, hg, hm⟩
    obtain ⟨hg, hburnt⟩ := mem_burnt.1 hg
    refine (isBurnt_iff.1 hburnt).1 e.id (List.mem_map_of_mem (List.mem_filter.2 ⟨he, ?_⟩)) hm
    exact decide_eq_true (hm.2.trans (ho.below g hg))

/-- A turn resolves nothing that is settled. -/
theorem Owes.nodup_resolved (h : Owes l cursor gaps settled burnt)
    (hf : FetchSound l cursor survivingGaps burntGaps d.deliverable)
    (hd : DeliverySpec c cursor d.deliverable d.outcome d.calls) (hsub : survivingGaps.Sublist gaps) :
    (settled ++ resolvedIds c d.calls).Nodup := by
  refine List.nodup_append.2 ⟨h.nodup, hd.resolved_sorted.imp Nat.ne_of_lt, ?_⟩
  rintro id hs _ hid rfl
  obtain ⟨hle, hgap, -⟩ := h.settled_mem id hs
  obtain ⟨⟨e, he, rfl⟩, -⟩ := hd.resolved id hid
  rcases (hf.mem e he).2.2 with hlt | ⟨g, hg, hm⟩
  · omega
  · exact hgap ⟨g, hsub.subset hg, hm⟩

/-- The write of a turn keeps the invariant when `xmax` covers the gaps it records. -/
theorem Owes.afterTurn (h : Owes l cursor gaps settled burnt) (hw : l.WF)
    (hf : FetchSound l cursor survivingGaps burntGaps d.deliverable)
    (hd : DeliverySpec c cursor d.deliverable d.outcome d.calls)
    (hsub : survivingGaps.Sublist gaps) (hb : ∀ g ∈ burntGaps, g ∈ gaps)
    (hp : ∀ id, Covers gaps id → Covers burntGaps id ∨ Covers survivingGaps id)
    (hx : XmaxCovers l (newBounds cursor d)) :
    Owes l d.outcome.cursor (gapsAfterTurn survivingGaps cursor d l.xacts.xmax)
      (settled ++ resolvedIds c d.calls) (burnt ++ burntGaps) := by
  have hsb : ∀ g ∈ survivingGaps, g.toId ≤ cursor := fun g hg => h.below g (hsub.subset hg)
  have hsc : ∀ id, Covers survivingGaps id → Covers gaps id := fun id ⟨g, hg, hm⟩ =>
    ⟨g, hsub.subset hg, hm⟩
  have ⟨hord, hbelow, hcov, hbound⟩ := gapsAfterTurn_spec hd hf.sorted l.xacts.xmax
    (h.ordered.sublist hsub) hsb
  have hge := hd.cursor_ge
  refine ⟨hord, hbelow, ?_, fun r hr hle => ?_, fun d' hd' hrun hle => ?_,
    fun g hg d' hd' hm hrun => ?_, fun g hg => ?_, ⟨fun d' hd' hc => ?_, fun r hr hc => ?_⟩,
    fun id hid => ?_, ?_⟩
  · rcases hd.cursor_mem with he | ⟨e, he, hid⟩
    · exact he ▸ h.cursor_lt
    · exact hid ▸ hw.id_lt (hf.mem e he).1
  · rw [List.mem_append, hcov]
    by_cases hres : r.id ∈ resolvedIds c d.calls
    · exact .inl (.inr hres)
    · rcases Nat.lt_or_ge cursor r.id with hlt | hge
      · exact .inr (.inl ⟨.inr ⟨hlt, hle⟩, hres⟩)
      · rcases h.accounted r hr hge with hs | hc | hg
        · exact .inl (.inl hs)
        · rcases hp r.id hc with hc | hc
          · exact .inr (.inr (hf.burnt.rows r hr hc))
          · exact .inr (.inl ⟨.inl hc, hres⟩)
        · exact .inr (.inr hg)
  · -- a resolved id is a committed row's, so its writer no longer runs
    have hres : d'.1 ∉ resolvedIds c d.calls := fun hid => by
      obtain ⟨⟨e, he, heq⟩, _⟩ := hd.resolved _ hid
      have ⟨hr, hcom, _⟩ := hf.mem e he
      have hx : e.xid = d'.2 := congrArg Prod.snd (hw.draw_inj _ (hw.drawn e hr) d' hd' heq)
      exact hw.xacts.disjoint _ hcom (hx ▸ hrun)
    rw [hcov]
    rcases Nat.lt_or_ge cursor d'.1 with hlt | hge
    · exact ⟨.inr ⟨hlt, hle⟩, hres⟩
    · refine ⟨.inl ((hp d'.1 (h.held d' hd' hrun hge)).resolve_left fun hc => ?_), hres⟩
      exact hf.burnt.draws d' hd' hc hrun
  · rcases hbound g hg d'.1 hm with ⟨g', hg', hm', hx'⟩ | ⟨hc, hx'⟩
    · exact (h.bound g' (hsub.subset hg') d' hd' hm' hrun).trans_le hx'
    · refine (hx d' hd' hrun ?_).trans_le hx'
      obtain ⟨g', hg', hm'⟩ := hc
      exact ⟨⟨g'.fromId, g'.toId, 0⟩, mem_gapEntries.2 ⟨(mem_gapEntries.1 hg').1, rfl⟩, hm'⟩
  · rcases List.mem_append.1 hg with hg | hg
    · exact (h.burnt_below g hg).trans hge
    · exact (h.below g (hb g hg)).trans hge
  · rcases covers_append.1 hc with hc | hc
    · exact h.burnt_gone.draws d' hd' hc
    · exact hf.burnt.draws d' hd' hc
  · rcases covers_append.1 hc with hc | hc
    · exact h.burnt_gone.rows r hr hc
    · exact hf.burnt.rows r hr hc
  · rcases List.mem_append.1 hid with hid | hid
    · have ⟨h₁, h₂, h₃⟩ := h.settled_mem id hid
      refine ⟨h₁.trans hge, fun hc => ?_, h₃⟩
      rcases ((hcov id).1 hc).1 with hc | hc
      · exact h₂ (hsc id hc)
      · omega
    · have ⟨⟨e, he, heq⟩, hle⟩ := hd.resolved id hid
      exact ⟨hle, fun hc => ((hcov id).1 hc).2 hid, e, (hf.mem e he).1, heq, (hf.mem e he).2.1⟩
  · exact h.nodup_resolved hf hd hsub

/-- The condition on a step: when a turn reads `xmax` for the gaps it found, it covers them. -/
def XmaxOk (l : Log) (s : ConsumerSlot) : TurnAct → Prop
  | .readXmax =>
    match s.turn with
    | some ⟨_, state, .delivered d _ _⟩ => XmaxCovers l (newBounds state.lastProcessedEventId d)
    | _ => True
  | _ => True

instance (l : Log) (s : ConsumerSlot) (a : TurnAct) : Decidable (XmaxOk l s a) := by
  unfold XmaxOk
  split
  · split <;> infer_instance
  · infer_instance

/-- A step of a turn is one of the other parties' steps for everyone else. -/
theorem TurnStep.ext (h : TurnStep c opts l s a l' s')
    (hx : ∀ t, s.turn = some t → l.Reading t.xid) (hw : l.WF) :
    l.Ext l' ∧ l'.WF ∧ l'.pruned = l.pruned ∧ l'.rows = l.rows := by
  cases h with
  | acquire | acquireSkip => exact ⟨Log.ext_claim l, hw.claim, rfl, rfl⟩
  | readXmin | fetch | deliverNothing | deliver | readXmax => exact ⟨.refl l, hw, rfl, rfl⟩
  | commit ht | commitSkipped ht =>
    have := hx _ ht
    exact ⟨Log.ext_commit this, hw.commit this, rfl, rfl⟩
  | abort ht => exact ⟨Log.ext_abort l _, hw.abort (hx _ ht), rfl, rfl⟩
  | recordFailure =>
    have := Log.reading_claim hw
    exact ⟨(Log.ext_claim l).trans (Log.ext_commit this), hw.claim.commit this, rfl, rfl⟩

/-- A turn that goes on keeps the invariant when its new phase does. -/
theorem SlotInv.phase {t : Turn} {phase : TurnPhase} {calls : List HandlerCall}
    (h : SlotInv c opts base l s) (ht : s.turn = some t)
    (hp : PhaseInv c opts l t.state (base ++ s.resolved) s.burnt phase) :
    SlotInv c opts base l { s with turn := some { t with phase }, calls } where
  owes := h.owes
  batch := h.batch
  turn_state _ ht' := by
    cases ht'
    exact h.turn_state t ht
  turn_xid _ ht' := by
    cases ht'
    exact h.turn_xid t ht
  turn_phase _ ht' := by
    cases ht'
    exact hp

/-- A row with the same cursor and the same gaps and no turn. -/
theorem SlotInv.unlocked (row : ConsumerStateRow) (h : SlotInv c opts base l s) (hw : l.WF)
    (hw' : l'.WF) (he : l.Ext l') (hc : row.lastProcessedEventId = s.row.lastProcessedEventId)
    (hg : row.pendingGaps = s.row.pendingGaps) :
    SlotInv c opts base l' { s with row, turn := none } where
  owes := by
    dsimp only
    rw [hc, hg]
    exact h.owes.ext hw hw' he
  batch hz := hg.trans (h.batch hz)
  turn_state := ConsumerSlot.no_turn rfl
  turn_xid := ConsumerSlot.no_turn rfl
  turn_phase := ConsumerSlot.no_turn rfl

/-- A row that a turn has just locked. -/
theorem SlotInv.locked {phase : TurnPhase} (h : SlotInv c opts base l s) (hw : l.WF)
    (hc : state.lastProcessedEventId = s.row.lastProcessedEventId)
    (hg : state.pendingGaps = s.row.pendingGaps)
    (hp : PhaseInv c opts l.claim state (base ++ s.resolved) s.burnt phase) :
    SlotInv c opts base l.claim { s with turn := some ⟨l.xacts.nextXid, state, phase⟩ } where
  owes := h.owes.ext hw hw.claim (Log.ext_claim l)
  batch := h.batch
  turn_state _ ht := by
    cases ht
    exact ⟨hc, hg⟩
  turn_xid _ ht := by
    cases ht
    exact Log.reading_claim hw
  turn_phase _ ht := by
    cases ht
    exact hp

theorem acquireConsumerState_eq {row : ConsumerStateRow} {cool : Bool}
    (h : acquireConsumerState opts row cool = some state) :
    state.lastProcessedEventId = row.lastProcessedEventId ∧ state.pendingGaps = row.pendingGaps := by
  unfold acquireConsumerState at h
  split at h
  · cases h
  · rw [Option.ite_none_right_eq_some] at h
    cases h.2
    exact ⟨rfl, rfl⟩
  · cases h
    exact ⟨rfl, rfl⟩
  · cases h
    exact ⟨rfl, rfl⟩

/-- Every step of a turn that meets the condition keeps the consumer's invariant. -/
theorem SlotInv.step (h : SlotInv c opts base l s) (hw : l.WF) (hok : XmaxOk l s a)
    (hs : TurnStep c opts l s a l' s') : SlotInv c opts base l' s' := by
  have ⟨he, hw', _⟩ := hs.ext h.turn_xid hw
  -- the invariant of the row, at the state the turn works on
  have owes : ∀ t, s.turn = some t → Owes l t.state.lastProcessedEventId t.state.pendingGaps
      (base ++ s.resolved) s.burnt := fun t ht => by
    have ⟨h₁, h₂⟩ := h.turn_state t ht
    rw [h₁, h₂]
    exact h.owes
  have batch : ∀ t, s.turn = some t → opts.batchSize = 0 → t.state.pendingGaps = [] :=
    fun t ht hz => (h.turn_state t ht).2.trans (h.batch hz)
  cases hs with
  | acquire _ ha =>
    have ⟨h₁, h₂⟩ := acquireConsumerState_eq ha
    exact h.locked hw h₁ h₂ trivial
  | acquireSkip => exact h.locked hw rfl rfl trivial
  | readXmin ht => exact h.phase ht (owes _ ht).xminSound
  | fetch ht => exact h.phase ht ((owes _ ht).fetchSound hw (batch _ ht) (h.turn_phase _ ht))
  | deliverNothing ht => exact h.phase ht trivial
  | deliver ht hne =>
    exact h.phase ht ((h.turn_phase _ ht).deliver (owes _ ht) (batch _ ht) hne)
  | readXmax ht =>
    obtain ⟨hz, hf, hd, hsub, hb, hp⟩ := h.turn_phase _ ht
    simp only [XmaxOk, ht] at hok
    exact h.phase ht ⟨hz, (owes _ ht).afterTurn hw hf hd hsub hb hp hok⟩
  | commit ht =>
    obtain ⟨hz, ho⟩ := h.turn_phase _ ht
    refine ⟨?_, fun hz' => absurd hz' hz, ConsumerSlot.no_turn rfl, ConsumerSlot.no_turn rfl,
      ConsumerSlot.no_turn rfl⟩
    dsimp only
    rw [← List.append_assoc]
    exact ho.ext hw hw' he
  | commitSkipped ht =>
    have ⟨h₁, h₂⟩ := h.turn_state _ ht
    exact h.unlocked _ hw hw' he h₁ h₂
  | abort => exact h.unlocked _ hw hw' he rfl rfl
  | @recordFailure errorMessage _ hn =>
    have := h.unlocked { s.row with lastError := some errorMessage } hw hw' he rfl rfl
    rwa [← hn] at this

end

end Kumiko
