import Kumiko.Library.Xacts
import Mathlib.Data.List.Sort
import Mathlib.Data.List.TakeWhile

/-!
# The event log

The table `kumiko_events` under concurrent writers. A writer claims its transaction id, draws event ids, inserts
rows and commits or rolls back. The sequence never goes back, so an id that is drawn and not inserted, or rolled
back, is a hole for good. A row is visible when its writer has committed before the statement and retention has
not deleted it.
-/

namespace Kumiko

/-- The columns of a `kumiko_events` row that the modelled readers use, and the id of the
transaction that wrote it. Reference: `eventsTable` (`event-store/events-schema.ts`). -/
structure EventRow where
  id : ℕ
  xid : ℕ
  tenantId : String
  aggregateType : String
  aggregateId : String
  version : ℤ
  type : String
  createdAt : ℕ
  /-- `metadata.idempotencyKey`. -/
  idempotencyKey : Option String
  deriving DecidableEq

/-- An event as its writer hands it to the table, before it has an id. -/
structure NewEvent where
  tenantId : String
  aggregateType : String
  aggregateId : String
  version : ℤ
  type : String
  createdAt : ℕ
  /-- `metadata.idempotencyKey`. -/
  idempotencyKey : Option String

/-- The row of a new event. -/
def NewEvent.toRow (ev : NewEvent) (id xid : ℕ) : EventRow :=
  { id, xid, tenantId := ev.tenantId, aggregateType := ev.aggregateType,
    aggregateId := ev.aggregateId, version := ev.version, type := ev.type,
    createdAt := ev.createdAt, idempotencyKey := ev.idempotencyKey }

/-- The transactions and which of them are writers, the id sequence with who drew which id, the rows
written so far by ascending id, and the ids of the rows that retention has deleted. -/
structure Log where
  xacts : Xacts
  writers : List ℕ
  nextId : ℕ
  /-- The ids drawn, each with the transaction that drew it. -/
  draws : List (ℕ × ℕ)
  rows : List EventRow
  pruned : List ℕ

/-- What a writer does to the log. -/
inductive LogAct
  /-- A writer's transaction claims its id. Reference: `claimXactId` (`db/queries/event-store.ts`). -/
  | claim
  /-- The transaction draws the next event id. -/
  | draw (xid : ℕ)
  /-- The transaction inserts an event under an id it has drawn. -/
  | insert (xid id : ℕ) (ev : NewEvent)
  /-- The transaction commits. -/
  | commit (xid : ℕ)
  /-- The transaction rolls back. -/
  | abort (xid : ℕ)

namespace Log

/-- The empty log. -/
def initial : Log := { xacts := .initial, writers := [], nextId := 1, draws := [], rows := [], pruned := [] }

/-- The transaction is a writer's and in progress. -/
def Writing (l : Log) (x : ℕ) : Prop := x ∈ l.writers ∧ x ∈ l.xacts.running

instance (l : Log) (x : ℕ) : Decidable (l.Writing x) := inferInstanceAs (Decidable (_ ∧ _))

/-- The row in its place by ascending id. -/
def insertRow (row : EventRow) (rows : List EventRow) : List EventRow :=
  rows.orderedInsert (fun a b => a.id ≤ b.id) row

/-- One step of a writer. -/
def step (l : Log) : LogAct → Option Log
  | .claim => some { l with xacts := l.xacts.claim, writers := l.xacts.nextXid :: l.writers }
  | .draw x =>
    if l.Writing x then
      some { l with draws := l.draws ++ [(l.nextId, x)], nextId := l.nextId + 1 }
    else none
  | .insert x id ev =>
    if l.Writing x ∧ (id, x) ∈ l.draws ∧ ∀ r ∈ l.rows, r.id ≠ id then
      some { l with rows := insertRow (ev.toRow id x) l.rows }
    else none
  | .commit x => if l.Writing x then some { l with xacts := l.xacts.commit x } else none
  | .abort x => if l.Writing x then some { l with xacts := l.xacts.abort x } else none

/-- The row is committed and not deleted. -/
def Visible (l : Log) (r : EventRow) : Prop := r.xid ∈ l.xacts.committed ∧ r.id ∉ l.pruned

instance (l : Log) (r : EventRow) : Decidable (l.Visible r) := inferInstanceAs (Decidable (_ ∧ _))

/-- The rows a statement sees, by ascending id. -/
def visibleRows (l : Log) : List EventRow := l.rows.filter fun r => l.Visible r

theorem mem_visibleRows {l : Log} {r : EventRow} :
    r ∈ l.visibleRows ↔ r ∈ l.rows ∧ l.Visible r := by simp [visibleRows]

/-- What every log satisfies. -/
structure WF (l : Log) : Prop where
  xacts : l.xacts.WF
  /-- The ids ascend. -/
  sorted : l.rows.Pairwise fun a b => a.id < b.id
  /-- A row's id was drawn by its writer. -/
  drawn : ∀ r ∈ l.rows, (r.id, r.xid) ∈ l.draws
  /-- An id came from the sequence, which starts at one. -/
  draw_lt : ∀ d ∈ l.draws, 0 < d.1 ∧ d.1 < l.nextId
  /-- No id is drawn twice. -/
  draw_inj : ∀ d ∈ l.draws, ∀ d' ∈ l.draws, d.1 = d'.1 → d = d'
  nextId_pos : 0 < l.nextId
  /-- A writer had claimed its id. -/
  writers_lt : ∀ x ∈ l.writers, x < l.xacts.nextXid
  /-- Ids are drawn by writers. -/
  draw_writer : ∀ d ∈ l.draws, d.2 ∈ l.writers

theorem initial_wf : initial.WF :=
  ⟨Xacts.initial_wf, .nil, by simp [initial], by simp [initial], by simp [initial],
    by simp [initial], by simp [initial], by simp [initial]⟩

variable {l l' l'' : Log} {a : LogAct} {r r' : EventRow} {ev : NewEvent} {x id : ℕ}

theorem WF.id_lt (h : l.WF) (hr : r ∈ l.rows) : r.id < l.nextId :=
  (h.draw_lt _ (h.drawn r hr)).2

theorem WF.id_pos (h : l.WF) (hr : r ∈ l.rows) : 0 < r.id := (h.draw_lt _ (h.drawn r hr)).1

theorem WF.draw_xid_lt (h : l.WF) {d : ℕ × ℕ} (hd : d ∈ l.draws) : d.2 < l.xacts.nextXid :=
  h.writers_lt _ (h.draw_writer d hd)

theorem WF.xid_lt (h : l.WF) (hr : r ∈ l.rows) : r.xid < l.xacts.nextXid :=
  h.draw_xid_lt (h.drawn r hr)

theorem mem_insertRow {rows : List EventRow} : r ∈ insertRow r' rows ↔ r = r' ∨ r ∈ rows :=
  List.mem_orderedInsert _

theorem insertRow_sorted {rows : List EventRow} (hs : rows.Pairwise fun a b => a.id < b.id)
    (hn : ∀ a ∈ rows, a.id ≠ r.id) : (insertRow r rows).Pairwise fun a b => a.id < b.id := by
  induction rows with
  | nil => exact List.pairwise_singleton _ _
  | cons a rows ih =>
    rw [List.pairwise_cons] at hs
    have ha := hn a (.head _)
    unfold insertRow
    rw [List.orderedInsert_cons]
    split
    · refine List.pairwise_cons.2 ⟨fun b hb => ?_, List.pairwise_cons.2 hs⟩
      cases hb with
      | head => omega
      | tail _ hb =>
        have := hs.1 b hb
        omega
    · refine List.pairwise_cons.2 ⟨fun b hb => ?_, ih hs.2 fun b hb => hn b (.tail _ hb)⟩
      rcases mem_insertRow.1 hb with rfl | hb
      · omega
      · exact hs.1 b hb

/-- Every row's id is its own. -/
theorem WF.id_inj (h : l.WF) (hr : r ∈ l.rows) (hr' : r' ∈ l.rows) (he : r.id = r'.id) :
    r = r' :=
  List.inj_on_of_nodup_map (List.pairwise_map.2 (h.sorted.imp Nat.ne_of_lt)) hr hr' he

theorem WF.visibleRows_sorted (h : l.WF) : l.visibleRows.Pairwise fun a b => a.id < b.id :=
  h.sorted.sublist List.filter_sublist

/-- The transaction table may move on by itself. -/
theorem WF.withXacts {t : Xacts} (h : l.WF) (ht : t.WF) (he : l.xacts.nextXid ≤ t.nextXid) :
    { l with xacts := t }.WF :=
  ⟨ht, h.sorted, h.drawn, h.draw_lt, h.draw_inj, h.nextId_pos,
    fun x hx => (h.writers_lt x hx).trans_le he, h.draw_writer⟩

/-- What a writer's step can do. -/
theorem step_cases (h : l.step a = some l') :
    (a = .claim ∧
      l' = { l with xacts := l.xacts.claim, writers := l.xacts.nextXid :: l.writers }) ∨
    (∃ x, a = .draw x ∧ l.Writing x ∧
      l' = { l with draws := l.draws ++ [(l.nextId, x)], nextId := l.nextId + 1 }) ∨
    (∃ x id ev, a = .insert x id ev ∧ l.Writing x ∧ (id, x) ∈ l.draws ∧ (∀ r ∈ l.rows, r.id ≠ id) ∧
      l' = { l with rows := insertRow (ev.toRow id x) l.rows }) ∨
    (∃ x, a = .commit x ∧ l.Writing x ∧ l' = { l with xacts := l.xacts.commit x }) ∨
    (∃ x, a = .abort x ∧ l.Writing x ∧ l' = { l with xacts := l.xacts.abort x }) := by
  cases a with
  | claim =>
    cases h
    exact .inl ⟨rfl, rfl⟩
  | draw x =>
    simp only [step, Option.ite_none_right_eq_some, Option.some.injEq] at h
    exact .inr (.inl ⟨x, rfl, h.1, h.2.symm⟩)
  | insert x id ev =>
    simp only [step, Option.ite_none_right_eq_some, Option.some.injEq] at h
    exact .inr (.inr (.inl ⟨x, id, ev, rfl, h.1.1, h.1.2.1, h.1.2.2, h.2.symm⟩))
  | commit x =>
    simp only [step, Option.ite_none_right_eq_some, Option.some.injEq] at h
    exact .inr (.inr (.inr (.inl ⟨x, rfl, h.1, h.2.symm⟩)))
  | abort x =>
    simp only [step, Option.ite_none_right_eq_some, Option.some.injEq] at h
    exact .inr (.inr (.inr (.inr ⟨x, rfl, h.1, h.2.symm⟩)))

theorem WF.draw (h : l.WF) (hx : l.Writing x) :
    { l with draws := l.draws ++ [(l.nextId, x)], nextId := l.nextId + 1 }.WF where
  xacts := h.xacts
  sorted := h.sorted
  drawn r hr := List.mem_append_left _ (h.drawn r hr)
  draw_lt d hd := by
    rcases List.mem_append.1 hd with hd | hd
    · have := h.draw_lt d hd
      exact ⟨this.1, Nat.lt_succ_of_lt this.2⟩
    · rw [List.mem_singleton] at hd
      subst hd
      exact ⟨h.nextId_pos, Nat.lt_succ_self _⟩
  draw_inj d hd d' hd' he := by
    rw [List.mem_append, List.mem_singleton] at hd hd'
    rcases hd with hd | rfl <;> rcases hd' with hd' | rfl
    · exact h.draw_inj d hd d' hd' he
    · exact absurd he (Nat.ne_of_lt (h.draw_lt d hd).2)
    · exact absurd he.symm (Nat.ne_of_lt (h.draw_lt d' hd').2)
    · rfl
  nextId_pos := Nat.succ_pos _
  writers_lt := h.writers_lt
  draw_writer d hd := by
    rcases List.mem_append.1 hd with hd | hd
    · exact h.draw_writer d hd
    · rw [List.mem_singleton] at hd
      subst hd
      exact hx.1

theorem WF.insert (h : l.WF) (hd : (id, x) ∈ l.draws) (hn : ∀ r ∈ l.rows, r.id ≠ id) :
    { l with rows := insertRow (ev.toRow id x) l.rows }.WF where
  xacts := h.xacts
  sorted := insertRow_sorted h.sorted hn
  drawn r hr := by
    rcases mem_insertRow.1 hr with rfl | hr
    · exact hd
    · exact h.drawn r hr
  draw_lt := h.draw_lt
  draw_inj := h.draw_inj
  nextId_pos := h.nextId_pos
  writers_lt := h.writers_lt
  draw_writer := h.draw_writer

theorem WF.step (h : l.WF) (hs : l.step a = some l') : l'.WF := by
  rcases step_cases hs with ⟨_, rfl⟩ | ⟨x, _, hx, rfl⟩ | ⟨x, id, ev, _, hx, hd, hn, rfl⟩ |
    ⟨x, _, hx, rfl⟩ | ⟨x, _, hx, rfl⟩
  · refine ⟨h.xacts.claim, h.sorted, h.drawn, h.draw_lt, h.draw_inj, h.nextId_pos, fun x hx => ?_,
      fun d hd => .tail _ (h.draw_writer d hd)⟩
    cases hx with
    | head => exact Nat.lt_succ_self _
    | tail _ hx => exact Nat.lt_succ_of_lt (h.writers_lt x hx)
  · exact h.draw hx
  · exact h.insert hd hn
  · exact h.withXacts (h.xacts.commit hx.2) (le_refl _)
  · exact h.withXacts (h.xacts.abort hx.2) (le_refl _)

/-- A writer's transaction stays in progress until it commits or rolls back. -/
theorem Writing.step (h : l.Writing x) (hc : a ≠ .commit x) (ha : a ≠ .abort x)
    (hs : l.step a = some l') : l'.Writing x := by
  obtain ⟨hm, hr⟩ := h
  rcases step_cases hs with ⟨_, rfl⟩ | ⟨y, _, _, rfl⟩ | ⟨y, _, _, _, _, _, _, rfl⟩ |
    ⟨y, rfl, _, rfl⟩ | ⟨y, rfl, _, rfl⟩
  · exact ⟨.tail _ hm, .tail _ hr⟩
  · exact ⟨hm, hr⟩
  · exact ⟨hm, hr⟩
  · exact ⟨hm, (List.mem_erase_of_ne fun he => hc (congrArg _ he.symm)).2 hr⟩
  · exact ⟨hm, (List.mem_erase_of_ne fun he => ha (congrArg _ he.symm)).2 hr⟩

/-- A transaction that is rolled back has aborted. -/
theorem aborted_of_step (h : l.WF) (hs : l.step (.abort x) = some l') : l'.xacts.Aborted x := by
  simp only [Log.step, Option.ite_none_right_eq_some, Option.some.injEq] at hs
  obtain ⟨⟨-, hr⟩, rfl⟩ := hs
  exact ⟨h.xacts.running_lt x hr, fun hm => ((h.xacts.nodup.mem_erase_iff).1 hm).1 rfl,
    fun hc => h.xacts.disjoint x hc hr⟩

/-! ## What a reader may assume of the others -/

/-- The log has moved on: transactions were claimed and finished, and transactions that were running
or are new have drawn new ids and inserted rows. -/
structure Ext (l l' : Log) : Prop where
  xacts : l.xacts.Ext l'.xacts
  nextId : l.nextId ≤ l'.nextId
  /-- No row is taken back. -/
  rows : ∀ r ∈ l.rows, r ∈ l'.rows
  /-- The writer of a row that was added was not finished before. -/
  rows_since : ∀ r ∈ l'.rows, r ∈ l.rows ∨ r.xid ∈ l.xacts.running ∨ l.xacts.nextXid ≤ r.xid
  /-- An id drawn since is new. -/
  draws_since : ∀ d ∈ l'.draws, d ∈ l.draws ∨ l.nextId ≤ d.1
  /-- No deletion is undone. -/
  pruned : ∀ id ∈ l.pruned, id ∈ l'.pruned

theorem Ext.refl (l : Log) : l.Ext l :=
  ⟨.refl _, le_refl _, fun _ h => h, fun _ h => .inl h, fun _ h => .inl h, fun _ h => h⟩

theorem Ext.trans (h : l.Ext l') (h' : l'.Ext l'') : l.Ext l'' where
  xacts := h.xacts.trans h'.xacts
  nextId := h.nextId.trans h'.nextId
  rows r hr := h'.rows r (h.rows r hr)
  rows_since r hr := by
    rcases h'.rows_since r hr with hr | hx | hx
    · exact h.rows_since r hr
    · rcases Nat.lt_or_ge r.xid l.xacts.nextXid with hlt | hge
      · exact .inr (.inl (h.xacts.running _ hx hlt))
      · exact .inr (.inr hge)
    · exact .inr (.inr (h.xacts.nextXid.trans hx))
  draws_since d hd := by
    rcases h'.draws_since d hd with hd | hid
    · exact h.draws_since d hd
    · exact .inr (h.nextId.trans hid)
  pruned id hid := h'.pruned id (h.pruned id hid)

/-- The transaction table may move on by itself. -/
theorem ext_withXacts {t : Xacts} (h : l.xacts.Ext t) : l.Ext { l with xacts := t } :=
  ⟨h, le_refl _, fun _ hr => hr, fun _ hr => .inl hr, fun _ hd => .inl hd, fun _ hid => hid⟩

theorem ext_step (hs : l.step a = some l') : l.Ext l' := by
  rcases step_cases hs with ⟨_, rfl⟩ | ⟨x, _, hx, rfl⟩ | ⟨x, id, ev, _, hx, hd, hn, rfl⟩ |
    ⟨x, _, hx, rfl⟩ | ⟨x, _, hx, rfl⟩
  · exact ⟨Xacts.ext_claim _, le_refl _, fun _ hr => hr, fun _ hr => .inl hr, fun _ hd => .inl hd,
      fun _ hid => hid⟩
  · refine ⟨.refl _, Nat.le_succ _, fun _ hr => hr, fun _ hr => .inl hr, fun d hd => ?_,
      fun _ hid => hid⟩
    rcases List.mem_append.1 hd with hd | hd
    · exact .inl hd
    · rw [List.mem_singleton] at hd
      exact .inr (hd ▸ le_refl _)
  · refine ⟨.refl _, le_refl _, fun r hr => mem_insertRow.2 (.inr hr), fun r hr => ?_,
      fun _ hd => .inl hd, fun _ hid => hid⟩
    rcases mem_insertRow.1 hr with rfl | hr
    · exact .inr (.inl hx.2)
    · exact .inl hr
  · exact ext_withXacts (Xacts.ext_commit hx.2)
  · exact ext_withXacts (Xacts.ext_abort _ _)

/-- The transaction is in progress and not a writer's. -/
def Reading (l : Log) (x : ℕ) : Prop := x ∉ l.writers ∧ x ∈ l.xacts.running

/-- A writer does not end another party's transaction. -/
theorem Reading.step (h : l.Reading x) (hw : l.WF) (hs : l.step a = some l') : l'.Reading x := by
  obtain ⟨hn, hr⟩ := h
  rcases step_cases hs with ⟨_, rfl⟩ | ⟨y, _, _, rfl⟩ | ⟨y, _, _, _, _, _, _, rfl⟩ |
    ⟨y, _, hy, rfl⟩ | ⟨y, _, hy, rfl⟩
  · refine ⟨fun hm => ?_, .tail _ hr⟩
    cases hm with
    | head => exact Nat.lt_irrefl _ (hw.xacts.running_lt _ hr)
    | tail _ hm => exact hn hm
  · exact ⟨hn, hr⟩
  · exact ⟨hn, hr⟩
  · have hne : x ≠ y := fun he => hn (he ▸ hy.1)
    exact ⟨hn, (List.mem_erase_of_ne hne).2 hr⟩
  · have hne : x ≠ y := fun he => hn (he ▸ hy.1)
    exact ⟨hn, (List.mem_erase_of_ne hne).2 hr⟩

/-! ## The transactions of readers -/

/-- A reader's transaction claims its id. -/
def claim (l : Log) : Log := { l with xacts := l.xacts.claim }

/-- A reader's transaction commits. -/
def commit (l : Log) (x : ℕ) : Log := { l with xacts := l.xacts.commit x }

/-- A reader's transaction rolls back. -/
def abort (l : Log) (x : ℕ) : Log := { l with xacts := l.xacts.abort x }

theorem WF.claim (h : l.WF) : l.claim.WF := h.withXacts h.xacts.claim (Nat.le_succ _)

theorem WF.commit (h : l.WF) (hx : l.Reading x) : (l.commit x).WF :=
  h.withXacts (h.xacts.commit hx.2) (le_refl _)

theorem WF.abort (h : l.WF) (hx : l.Reading x) : (l.abort x).WF :=
  h.withXacts (h.xacts.abort hx.2) (le_refl _)

theorem ext_claim (l : Log) : l.Ext l.claim := ext_withXacts (Xacts.ext_claim _)

theorem ext_commit (hx : l.Reading x) : l.Ext (l.commit x) := ext_withXacts (Xacts.ext_commit hx.2)

theorem ext_abort (l : Log) (x : ℕ) : l.Ext (l.abort x) := ext_withXacts (Xacts.ext_abort _ _)

/-- The claimed id is a reader's. -/
theorem reading_claim (h : l.WF) : l.claim.Reading l.xacts.nextXid :=
  ⟨fun hm => Nat.lt_irrefl _ (h.writers_lt _ hm), .head _⟩

/-- Only an insert changes the rows. -/
theorem step_rows (hs : l.step a = some l') (ha : ∀ x id ev, a ≠ .insert x id ev) :
    l'.rows = l.rows := by
  rcases step_cases hs with ⟨_, rfl⟩ | ⟨_, _, _, rfl⟩ | ⟨x, id, ev, he, _⟩ | ⟨_, _, _, rfl⟩ |
    ⟨_, _, _, rfl⟩
  · rfl
  · rfl
  · exact absurd he (ha x id ev)
  · rfl
  · rfl

/-- A writer does not delete rows. -/
theorem step_pruned (hs : l.step a = some l') : l'.pruned = l.pruned := by
  rcases step_cases hs with ⟨_, rfl⟩ | ⟨_, _, _, rfl⟩ | ⟨_, _, _, _, _, _, _, rfl⟩ |
    ⟨_, _, _, rfl⟩ | ⟨_, _, _, rfl⟩ <;> rfl

end Log

end Kumiko
