import Kumiko.Library.Run
import Kumiko.Pipeline.EventRetention
import Kumiko.Pipeline.Registration

/-!
# The consumer table

Any number of consumers over one log, with writers, turns, registrations and prunes interleaved statement by
statement. A prune locks the table from its first statement on. (The statements of a turn do not wait for a
prune here, which admits more interleavings than the database does.) What every consumer owes is its own
(`ConsumersInv`), on two conditions about `xmax` (`BoundsOk`).
-/

namespace Kumiko

open Span Transition

/-- The primary key of `kumiko_event_consumers`. -/
structure ConsumerKey where
  name : String
  instanceId : String
  deriving DecidableEq

/-- A consumer's row and turns, and two records the source does not keep: the ids that were visible
when its registration read its seed, and those of them that the seed leaves behind. -/
structure Consumer where
  slot : ConsumerSlot
  seen : List ℕ
  skipped : List ℕ

/-- A consumer registered from the beginning. -/
def Consumer.fromBeginning : Consumer := ⟨.registered 0 [], [], []⟩

/-- How far a registration from now on has come. Reference: `insertConsumerIfAbsent`. -/
inductive Registration
  | idle
  /-- There was no row. -/
  | checked (key : ConsumerKey)
  /-- The horizon and its gaps have been read. -/
  | seeded (key : ConsumerKey) (seed : EventIdHorizon) (seen skipped : List ℕ)

/-- The log, the consumer table, and the registrations and prunes in progress. -/
structure Consumers where
  log : Log
  /-- The keys of the rows. -/
  keys : List ConsumerKey
  consumer : ConsumerKey → Consumer
  registrations : ℕ → Registration
  prunes : ℕ → PrunePhase
  /-- The prunes that hold the lock on the consumer table. -/
  shareLocks : List ℕ

/-- The steps of the parties. -/
inductive ConsumersAct
  /-- A writer's step. -/
  | writer (a : LogAct)
  /-- A step of a consumer's turn. -/
  | turn (key : ConsumerKey) (a : TurnAct)
  /-- The write of `disableConsumer`, or that of `enableConsumer` and `restartConsumer`. -/
  | setStatus (key : ConsumerKey) (disabled : Bool)
  /-- A registration from the beginning. -/
  | register (key : ConsumerKey)
  /-- A registration from now on looks for the row. -/
  | check (r : ℕ) (key : ConsumerKey)
  /-- It reads its seed, where `top` has the highest cursor. -/
  | readSeed (r : ℕ) (top : Option ConsumerKey)
  /-- It inserts the row. -/
  | insert (r : ℕ)
  /-- A step of a prune. -/
  | prune (j : ℕ) (a : PruneAct)

/-- Reference: `updateConsumerStatusReturning` (`db/queries/event-consumer.ts`). -/
def ConsumerStateRow.setStatus (row : ConsumerStateRow) (disabled : Bool) : ConsumerStateRow :=
  { row with status := if disabled then .disabled else .idle, attempts := 0, lastError := none,
             rearmCount := 0 }

/-- A statement that is a transaction of its own and writes to the consumer table. -/
def Log.statement (l : Log) : Log := l.claim.commit l.xacts.nextXid

namespace Consumers

/-- An empty log and no consumer. -/
def start : Consumers :=
  { log := .initial, keys := [], consumer := fun _ => .fromBeginning
    registrations := fun _ => .idle, prunes := fun _ => .idle, shareLocks := [] }

/-- The committed row. -/
def row (w : Consumers) (key : ConsumerKey) : ConsumerStateRow := (w.consumer key).slot.row

/-- The rows with the names of their consumers. -/
def rows (w : Consumers) : List (String × ConsumerStateRow) := w.keys.map fun k => (k.name, w.row k)

/-- The row has the highest cursor, or there is none. -/
def IsTop (w : Consumers) : Option ConsumerKey → Prop
  | none => w.keys = []
  | some top => top ∈ w.keys ∧
    ∀ k ∈ w.keys, (w.row k).lastProcessedEventId ≤ (w.row top).lastProcessedEventId

instance (w : Consumers) (top : Option ConsumerKey) : Decidable (w.IsTop top) := by
  unfold IsTop
  split <;> infer_instance

/-- The seed that a statement reads outside a transaction. -/
def seed (w : Consumers) (top : Option ConsumerKey) : EventIdHorizon :=
  selectEventIdHorizonWithMissingRanges w.log none (top.map w.row)

/-- A consumer's slot changes, and the log with it. -/
def setSlot (w : Consumers) (log : Log) (key : ConsumerKey) (slot : ConsumerSlot) : Consumers :=
  { w with log, consumer := Function.update w.consumer key { w.consumer key with slot } }

/-- A new row. -/
def addConsumer (w : Consumers) (key : ConsumerKey) (c : Consumer) : Consumers :=
  { w with log := w.log.statement, keys := key :: w.keys,
           consumer := Function.update w.consumer key c }

/-- A registration goes on to a phase. -/
def setRegistration (w : Consumers) (r : ℕ) (p : Registration) : Consumers :=
  { w with registrations := Function.update w.registrations r p }

/-- A prune goes on to a phase; it holds the lock unless the phase is `idle`. -/
def setPrune (w : Consumers) (log : Log) (j : ℕ) (p : PrunePhase) : Consumers :=
  { w with
    log
    prunes := Function.update w.prunes j p
    shareLocks := if p = .idle then w.shareLocks.filter (· ≠ j)
      else j :: w.shareLocks.filter (· ≠ j) }

section
variable {w : Consumers} {log : Log} {key key' : ConsumerKey} {slot : ConsumerSlot} {c : Consumer}
  {r r' j j' : ℕ} {p : Registration} {q : PrunePhase}

@[simp] theorem setSlot_self :
    (w.setSlot log key slot).consumer key = { w.consumer key with slot } :=
  Function.update_self ..

theorem setSlot_of_ne (h : key' ≠ key) :
    (w.setSlot log key slot).consumer key' = w.consumer key' := Function.update_of_ne h ..

@[simp] theorem addConsumer_self : (w.addConsumer key c).consumer key = c :=
  Function.update_self ..

theorem addConsumer_of_ne (h : key' ≠ key) :
    (w.addConsumer key c).consumer key' = w.consumer key' := Function.update_of_ne h ..

@[simp] theorem setRegistration_self : (w.setRegistration r p).registrations r = p :=
  Function.update_self ..

theorem setRegistration_of_ne (h : r' ≠ r) :
    (w.setRegistration r p).registrations r' = w.registrations r' := Function.update_of_ne h ..

@[simp] theorem setPrune_self : (w.setPrune log j q).prunes j = q := Function.update_self ..

theorem setPrune_of_ne (h : j' ≠ j) : (w.setPrune log j q).prunes j' = w.prunes j' :=
  Function.update_of_ne h ..

end

end Consumers

/-- One step of the system, for the application's consumers. -/
def consumersStep (registry : String → EventConsumer) (opts : DispatcherOptions) (w : Consumers) :
    ConsumersAct → Option Consumers
  | .writer a => (w.log.step a).map fun log => { w with log }
  | .turn key a =>
    if key ∈ w.keys then
      (turnStep (registry key.name) opts w.log (w.consumer key).slot a).map fun r =>
        w.setSlot r.1 key r.2
    else none
  | .setStatus key disabled =>
    if key ∈ w.keys ∧ (w.consumer key).slot.turn.isNone ∧ w.shareLocks = [] then
      some (w.setSlot w.log.statement key
        { (w.consumer key).slot with row := (w.row key).setStatus disabled })
    else none
  | .register key =>
    if w.shareLocks = [] then
      some (if key ∈ w.keys then w else w.addConsumer key .fromBeginning)
    else none
  | .check r key =>
    match w.registrations r with
    | .idle =>
      some (w.setRegistration r (if key ∈ w.keys then .idle else .checked key))
    | _ => none
  | .readSeed r top =>
    match w.registrations r with
    | .checked key =>
      if w.IsTop top then
        let seed := w.seed top
        let seen := w.log.visibleIds
        some (w.setRegistration r
          (.seeded key seed seen (seen.filter fun id => ¬ Covers seed.gaps id)))
      else none
    | _ => none
  | .insert r =>
    match w.registrations r with
    | .seeded key seed seen skipped =>
      if w.shareLocks = [] then
        let w' := w.setRegistration r .idle
        some (if key ∈ w.keys then w'
          else w'.addConsumer key ⟨.registered seed.horizon seed.gaps, seen, skipped⟩)
      else none
    | _ => none
  | .prune j a =>
    (pruneStep w.log w.rows (w.prunes j) a).map fun r => w.setPrune r.1 j r.2

/-- What the steps do. -/
inductive ConsumersStep (registry : String → EventConsumer) (opts : DispatcherOptions)
    (w : Consumers) : ConsumersAct → Consumers → Prop
  | writer {a : LogAct} {log : Log} :
    w.log.step a = some log → ConsumersStep registry opts w (.writer a) { w with log }
  | turn {key : ConsumerKey} {a : TurnAct} {log : Log} {slot : ConsumerSlot} :
    key ∈ w.keys → TurnStep (registry key.name) opts w.log (w.consumer key).slot a log slot →
    ConsumersStep registry opts w (.turn key a) (w.setSlot log key slot)
  | setStatus {key : ConsumerKey} {disabled : Bool} :
    key ∈ w.keys → (w.consumer key).slot.turn = none → w.shareLocks = [] →
    ConsumersStep registry opts w (.setStatus key disabled) (w.setSlot w.log.statement key
      { (w.consumer key).slot with row := (w.row key).setStatus disabled })
  | register {key : ConsumerKey} :
    key ∉ w.keys → w.shareLocks = [] →
    ConsumersStep registry opts w (.register key) (w.addConsumer key .fromBeginning)
  | check {r : ℕ} {key : ConsumerKey} {p : Registration} :
    p = .idle ∨ p = .checked key →
    ConsumersStep registry opts w (.check r key) (w.setRegistration r p)
  | readSeed {r : ℕ} {key : ConsumerKey} {top : Option ConsumerKey} :
    w.IsTop top →
    ConsumersStep registry opts w (.readSeed r top)
      (w.setRegistration r (.seeded key (w.seed top) w.log.visibleIds
        (w.log.visibleIds.filter fun id => ¬ Covers (w.seed top).gaps id)))
  | insert {r : ℕ} {key : ConsumerKey} {seed : EventIdHorizon} {seen skipped : List ℕ} :
    w.registrations r = .seeded key seed seen skipped → key ∉ w.keys → w.shareLocks = [] →
    ConsumersStep registry opts w (.insert r)
      ((w.setRegistration r .idle).addConsumer key
        ⟨.registered seed.horizon seed.gaps, seen, skipped⟩)
  | insertConflict {r : ℕ} :
    ConsumersStep registry opts w (.insert r) (w.setRegistration r .idle)
  | prune {j : ℕ} {a : PruneAct} {log : Log} {p : PrunePhase} :
    PruneStep w.log w.rows (w.prunes j) a log p →
    ConsumersStep registry opts w (.prune j a) (w.setPrune log j p)
  | unchanged {a : ConsumersAct} : ConsumersStep registry opts w a w

section
variable {registry : String → EventConsumer} {opts : DispatcherOptions} {w w' : Consumers}
  {a : ConsumersAct}

/-- A step goes by one of the rules. -/
theorem ConsumersStep.of_step (h : consumersStep registry opts w a = some w') :
    ConsumersStep registry opts w a w' := by
  cases a with
  | writer a =>
    obtain ⟨log, hl, rfl⟩ := Option.map_eq_some_iff.1 h
    exact .writer hl
  | turn key a =>
    simp only [consumersStep, Option.ite_none_right_eq_some] at h
    obtain ⟨hk, h⟩ := h
    obtain ⟨⟨log, slot⟩, ht, rfl⟩ := Option.map_eq_some_iff.1 h
    exact .turn hk (.of_turnStep ht)
  | setStatus key disabled =>
    simp only [consumersStep, Option.ite_none_right_eq_some, Option.isNone_iff_eq_none] at h
    obtain ⟨⟨hk, ht, hl⟩, h⟩ := h
    cases h
    exact .setStatus hk ht hl
  | register key =>
    simp only [consumersStep, Option.ite_none_right_eq_some] at h
    obtain ⟨hl, h⟩ := h
    cases h
    split
    · exact .unchanged
    · rename_i hk
      exact .register hk hl
  | check r key =>
    simp only [consumersStep] at h
    split at h <;> cases h
    refine .check ?_
    split
    · exact .inl rfl
    · exact .inr rfl
  | readSeed r top =>
    simp only [consumersStep] at h
    split at h
    · rw [Option.ite_none_right_eq_some] at h
      obtain ⟨ht, h⟩ := h
      cases h
      exact .readSeed ht
    · cases h
  | insert r =>
    simp only [consumersStep] at h
    split at h
    · rename_i hr
      rw [Option.ite_none_right_eq_some] at h
      obtain ⟨hl, h⟩ := h
      cases h
      split
      · exact .insertConflict
      · rename_i hk
        exact .insert hr hk hl
    · cases h
  | prune j a =>
    obtain ⟨⟨log, p⟩, hp, rfl⟩ := Option.map_eq_some_iff.1 h
    exact .prune (.of_pruneStep hp)

end

/-! ## The transactions of the parties -/

/-- A party whose transactions only read the log. -/
inductive Party
  | consumer (key : ConsumerKey)
  | prune (j : ℕ)

/-- The prune's transaction id, claimed when it deletes. -/
def PrunePhase.xid : PrunePhase → Option ℕ
  | .deleted xid _ => some xid
  | _ => none

/-- The transaction id a party holds. -/
def Consumers.xid (w : Consumers) : Party → Option ℕ
  | .consumer key => (w.consumer key).slot.turn.map (·.xid)
  | .prune j => (w.prunes j).xid

namespace Log

variable {l : Log} {x y : ℕ}

theorem Reading.claim (h : l.Reading x) : l.claim.Reading x := ⟨h.1, .tail _ h.2⟩

theorem Reading.commit (h : l.Reading x) (hne : x ≠ y) : (l.commit y).Reading x :=
  ⟨h.1, (List.mem_erase_of_ne hne).2 h.2⟩

theorem Reading.abort (h : l.Reading x) (hne : x ≠ y) : (l.abort y).Reading x :=
  ⟨h.1, (List.mem_erase_of_ne hne).2 h.2⟩

theorem Reading.statement (h : l.Reading x) (hw : l.WF) : l.statement.Reading x :=
  h.claim.commit (Nat.ne_of_lt (hw.xacts.running_lt x h.2))

theorem WF.statement (hw : l.WF) : l.statement.WF := hw.claim.commit (reading_claim hw)

theorem ext_statement (hw : l.WF) : l.Ext l.statement :=
  (ext_claim l).trans (ext_commit (reading_claim hw))

end Log

section
variable {c : EventConsumer} {opts : DispatcherOptions} {l l' : Log} {s s' : ConsumerSlot}
  {a : TurnAct} {b : PruneAct} {p p' : PrunePhase} {consumers : List (String × ConsumerStateRow)}
  {x : ℕ}

/-- A turn leaves the others' transactions in progress. -/
theorem TurnStep.reading (h : TurnStep c opts l s a l' s') (hw : l.WF) (hx : l.Reading x)
    (hne : ∀ t, s.turn = some t → x ≠ t.xid) : l'.Reading x := by
  cases h with
  | acquire | acquireSkip => exact hx.claim
  | readXmin | fetch | deliverNothing | deliver | readXmax => exact hx
  | commit ht | commitSkipped ht => exact hx.commit (hne _ ht)
  | abort ht => exact hx.abort (hne _ ht)
  | recordFailure => exact hx.statement hw

/-- A turn's transaction stays the same, ends, or is new. -/
theorem TurnStep.xid (h : TurnStep c opts l s a l' s') :
    s'.turn.map (·.xid) = none ∨ s'.turn.map (·.xid) = s.turn.map (·.xid) ∨
      s'.turn.map (·.xid) = some l.xacts.nextXid := by
  cases h with
  | acquire | acquireSkip => exact .inr (.inr rfl)
  | readXmin ht | fetch ht | deliverNothing ht | deliver ht | readXmax ht =>
    exact .inr (.inl (by rw [ht]; rfl))
  | commit | commitSkipped | abort => exact .inl rfl
  | recordFailure ht => exact .inl (by rw [ht]; rfl)

/-- A prune is one of the other parties for everyone else. -/
theorem PruneStep.ext (h : PruneStep l consumers p b l' p')
    (hx : ∀ x, p.xid = some x → l.Reading x) (hw : l.WF) :
    l.Ext l' ∧ l'.WF ∧ l'.rows = l.rows := by
  cases h with
  | lock | select | guard | stop => exact ⟨.refl l, hw, rfl⟩
  | delete => exact ⟨Log.ext_claim l, hw.claim, rfl⟩
  | commit => exact ⟨Log.ext_commitPrune (hx _ rfl), hw.commitPrune (hx _ rfl), rfl⟩
  | abort => exact ⟨Log.ext_abort l _, hw.abort (hx _ rfl), rfl⟩

/-- A prune leaves the others' transactions in progress. -/
theorem PruneStep.reading (h : PruneStep l consumers p b l' p') (hx : l.Reading x)
    (hne : ∀ y, p.xid = some y → x ≠ y) : l'.Reading x := by
  cases h with
  | lock | select | guard | stop => exact hx
  | delete => exact hx.claim
  | commit => exact hx.commit (hne _ rfl)
  | abort => exact hx.abort (hne _ rfl)

/-- A prune's transaction is new when it deletes, and ends with the prune. -/
theorem PruneStep.xid (h : PruneStep l consumers p b l' p') (hw : l.WF) :
    p'.xid = none ∨ p'.xid = some l.xacts.nextXid ∧ l'.Reading l.xacts.nextXid := by
  cases h with
  | lock | select | guard | stop | commit | abort => exact .inl rfl
  | delete => exact .inr ⟨rfl, Log.reading_claim hw⟩

end

/-! ## What every consumer owes -/

/-- What a turn or a seed reads as `xmax` is above the running writers with ids in the gaps it
records, and a seed takes over gaps only below its horizon. A dispatcher whose batches are empty has
no use for gaps. -/
def BoundsOk (opts : DispatcherOptions) (w : Consumers) : ConsumersAct → Prop
  | .turn key a => XmaxOk w.log (w.consumer key).slot a
  | .readSeed _ top => SeedCovers w.log (top.map w.row) ∧
    (opts.batchSize = 0 → (w.seed top).gaps = [])
  | _ => True

instance (opts : DispatcherOptions) (w : Consumers) (a : ConsumersAct) :
    Decidable (BoundsOk opts w a) := by
  unfold BoundsOk
  split <;> infer_instance

/-- The invariant of the table. -/
structure ConsumersInv (registry : String → EventConsumer) (opts : DispatcherOptions)
    (w : Consumers) : Prop where
  log : w.log.WF
  slot : ∀ key, SlotInv (registry key.name) opts (w.consumer key).skipped w.log
    (w.consumer key).slot
  /-- A seed that has been read keeps. -/
  seed : ∀ r key seed seen skipped, w.registrations r = .seeded key seed seen skipped →
    Owes w.log seed.horizon seed.gaps skipped [] ∧ (opts.batchSize = 0 → seed.gaps = [])
  prune_xid : ∀ j x, (w.prunes j).xid = some x → w.log.Reading x
  /-- No two parties share a transaction. -/
  alone : ∀ p q x, w.xid p = some x → w.xid q = some x → p = q

section
variable {registry : String → EventConsumer} {opts : DispatcherOptions} {w w' : Consumers}
  {a : ConsumersAct} {l l' : Log} {key : ConsumerKey}

/-- A row that no turn has touched. -/
theorem SlotInv.fresh {c : EventConsumer} {row : ConsumerStateRow} {settled : List ℕ}
    (h : Owes l row.lastProcessedEventId row.pendingGaps settled [])
    (hz : opts.batchSize = 0 → row.pendingGaps = []) :
    SlotInv c opts settled l { row, turn := none, calls := [], resolved := [], burnt := [] } where
  owes := by
    rw [List.append_nil]
    exact h
  batch := hz
  turn_state := ConsumerSlot.no_turn rfl
  turn_xid := ConsumerSlot.no_turn rfl
  turn_phase := ConsumerSlot.no_turn rfl

/-- A row as registration inserts it. -/
theorem SlotInv.registered {c : EventConsumer} {cursor : ℕ} {gaps : List PendingGapEntry}
    {settled : List ℕ} (h : Owes l cursor gaps settled []) (hz : opts.batchSize = 0 → gaps = []) :
    SlotInv c opts settled l (.registered cursor gaps) := .fresh h hz

/-- From the beginning nothing is settled. -/
theorem Owes.fromBeginning (hw : l.WF) : Owes l 0 [] [] [] where
  ordered := ordered_nil
  below := fun _ h => nomatch h
  cursor_lt := hw.nextId_pos
  accounted _ hr hle := absurd (hw.id_pos hr) (Nat.not_lt.2 hle)
  held d hd _ hle := absurd (hw.draw_lt d hd).1 (Nat.not_lt.2 hle)
  bound := fun _ h => nomatch h
  burnt_below := fun _ h => nomatch h
  burnt_gone := ⟨fun _ _ h => absurd h covers_nil, fun _ _ h => absurd h covers_nil⟩
  settled_mem := fun _ h => nomatch h
  nodup := .nil

theorem SlotInv.fromBeginning {c : EventConsumer} (hw : l.WF) :
    SlotInv c opts Consumer.fromBeginning.skipped l Consumer.fromBeginning.slot :=
  .registered (.fromBeginning hw) fun _ => rfl

theorem consumersInv_start : ConsumersInv registry opts .start where
  log := Log.initial_wf
  slot _ := .fromBeginning Log.initial_wf
  seed := by rintro _ _ _ _ _ ⟨⟩
  prune_xid := by rintro _ _ ⟨⟩
  alone p := by cases p <;> rintro _ _ ⟨⟩

namespace ConsumersInv

theorem reading (h : ConsumersInv registry opts w) {p : Party} {x : ℕ} (hp : w.xid p = some x) :
    w.log.Reading x := by
  cases p with
  | consumer key =>
    obtain ⟨t, ht, rfl⟩ := Option.map_eq_some_iff.1 hp
    exact (h.slot key).turn_xid t ht
  | prune j => exact h.prune_xid j x hp

/-- The next transaction id is nobody's. -/
theorem fresh (h : ConsumersInv registry opts w) (p : Party) :
    w.xid p ≠ some w.log.xacts.nextXid := fun hp =>
  Nat.lt_irrefl _ (h.log.xacts.running_lt _ (h.reading hp).2)

/-- One party's transaction stays, ends or is new, and the others keep theirs. -/
theorem alone_of (h : ConsumersInv registry opts w) (p : Party)
    (hp : w'.xid p = none ∨ w'.xid p = w.xid p ∨ w'.xid p = some w.log.xacts.nextXid)
    (ho : ∀ q, q ≠ p → w'.xid q = w.xid q) :
    ∀ q q' x, w'.xid q = some x → w'.xid q' = some x → q = q' := by
  have key : ∀ q x, q ≠ p → w'.xid q = some x → w'.xid p ≠ some x := fun q x hne hq hx => by
    rw [ho q hne] at hq
    rcases hp with hp | hp | hp
    · rw [hp] at hx
      cases hx
    · exact hne (h.alone q p x hq (hp ▸ hx))
    · rw [hp] at hx
      cases hx
      exact h.fresh q hq
  intro q q' x hq hq'
  by_cases hqp : q = p
  · by_cases hqp' : q' = p
    · exact hqp.trans hqp'.symm
    · exact absurd (hqp ▸ hq) (key q' x hqp' hq')
  · by_cases hqp' : q' = p
    · exact absurd (hqp' ▸ hq') (key q x hqp hq)
    · rw [ho q hqp] at hq
      rw [ho q' hqp'] at hq'
      exact h.alone q q' x hq hq'

/-- The others' steps, for a consumer whose turn they leave in progress. -/
theorem slot_ext (h : ConsumersInv registry opts w) (hw' : l'.WF) (he : w.log.Ext l')
    (hr : ∀ x, w.xid (.consumer key) = some x → l'.Reading x) :
    SlotInv (registry key.name) opts (w.consumer key).skipped l' (w.consumer key).slot :=
  (h.slot key).ext h.log hw' he fun t ht => hr t.xid (by rw [Consumers.xid, ht]; rfl)

/-- The others' steps, for a seed that has been read. -/
theorem seed_ext (h : ConsumersInv registry opts w) (hw' : l'.WF) (he : w.log.Ext l') (r : ℕ)
    (key : ConsumerKey) (seed : EventIdHorizon) (seen skipped : List ℕ)
    (hr : w.registrations r = .seeded key seed seen skipped) :
    Owes l' seed.horizon seed.gaps skipped [] ∧ (opts.batchSize = 0 → seed.gaps = []) :=
  have ⟨ho, hz⟩ := h.seed r key seed seen skipped hr
  ⟨ho.ext h.log hw' he, hz⟩

/-- Only the log moves on. -/
theorem withLog (h : ConsumersInv registry opts w) (hw' : l'.WF) (he : w.log.Ext l')
    (hr : ∀ p x, w.xid p = some x → l'.Reading x) :
    ConsumersInv registry opts { w with log := l' } where
  log := hw'
  slot _ := h.slot_ext hw' he (hr _)
  seed := h.seed_ext hw' he
  prune_xid j := hr (.prune j)
  alone := h.alone

/-- One consumer changes, and the log with it. -/
theorem update (h : ConsumersInv registry opts w) {c : Consumer} {keys : List ConsumerKey}
    (hw' : l'.WF) (he : w.log.Ext l')
    (hr : ∀ p x, p ≠ .consumer key → w.xid p = some x → l'.Reading x)
    (hs : SlotInv (registry key.name) opts c.skipped l' c.slot)
    (hx : c.slot.turn.map (·.xid) = none ∨ c.slot.turn.map (·.xid) = w.xid (.consumer key) ∨
      c.slot.turn.map (·.xid) = some w.log.xacts.nextXid) :
    ConsumersInv registry opts
      { w with log := l', keys, consumer := Function.update w.consumer key c } where
  log := hw'
  slot key' := by
    by_cases hk : key' = key
    · subst hk
      simpa only [Function.update_self] using hs
    · simp only [Function.update_of_ne hk]
      exact h.slot_ext hw' he (hr _ · fun hc => hk (by cases hc; rfl))
  seed := h.seed_ext hw' he
  prune_xid j x := hr (.prune j) x (by rintro ⟨⟩)
  alone := by
    refine h.alone_of (.consumer key) ?_ fun q hq => ?_
    · simpa only [Consumers.xid, Function.update_self] using hx
    · cases q with
      | consumer key' =>
        have hk : key' ≠ key := fun hk => hq (hk ▸ rfl)
        simp only [Consumers.xid, Function.update_of_ne hk]
      | prune j => rfl

/-- One consumer's slot moves on, and the log with it. -/
theorem setSlot (h : ConsumersInv registry opts w) {slot : ConsumerSlot} (hw' : l'.WF)
    (he : w.log.Ext l') (hr : ∀ p x, p ≠ .consumer key → w.xid p = some x → l'.Reading x)
    (hs : SlotInv (registry key.name) opts (w.consumer key).skipped l' slot)
    (hx : slot.turn.map (·.xid) = none ∨ slot.turn.map (·.xid) = w.xid (.consumer key) ∨
      slot.turn.map (·.xid) = some w.log.xacts.nextXid) :
    ConsumersInv registry opts (w.setSlot l' key slot) := h.update hw' he hr hs hx

/-- A registration moves on. -/
theorem setRegistration (h : ConsumersInv registry opts w) {r : ℕ} {p : Registration}
    (hp : ∀ key seed seen skipped, p = .seeded key seed seen skipped →
      Owes w.log seed.horizon seed.gaps skipped [] ∧ (opts.batchSize = 0 → seed.gaps = [])) :
    ConsumersInv registry opts (w.setRegistration r p) where
  log := h.log
  slot := h.slot
  seed r' key seed seen skipped hr := by
    by_cases hrr : r' = r
    · subst hrr
      rw [Consumers.setRegistration_self] at hr
      exact hp key seed seen skipped hr
    · rw [Consumers.setRegistration_of_ne hrr] at hr
      exact h.seed r' key seed seen skipped hr
  prune_xid := h.prune_xid
  alone := h.alone

/-- A row is inserted. -/
theorem addConsumer (h : ConsumersInv registry opts w) {c : Consumer}
    (hc : SlotInv (registry key.name) opts c.skipped w.log c.slot) (ht : c.slot.turn = none) :
    ConsumersInv registry opts (w.addConsumer key c) := by
  have hw' := h.log.statement
  have he := Log.ext_statement h.log
  refine h.update hw' he (fun p x _ hp => (h.reading hp).statement h.log)
    (hc.ext h.log hw' he (ConsumerSlot.no_turn ht)) (.inl ?_)
  rw [ht]
  rfl

/-- A prune moves on. -/
theorem setPrune (h : ConsumersInv registry opts w) {j : ℕ} {b : PruneAct} {p : PrunePhase}
    (hs : PruneStep w.log w.rows (w.prunes j) b l' p) :
    ConsumersInv registry opts (w.setPrune l' j p) := by
  have ⟨he, hw', _⟩ := hs.ext (h.prune_xid j) h.log
  have hr : ∀ q x, q ≠ .prune j → w.xid q = some x → l'.Reading x := fun q x hq hx =>
    hs.reading (h.reading hx) fun y hy hxy => hq (h.alone q (.prune j) x hx (hxy ▸ hy))
  refine ⟨hw', fun key => h.slot_ext hw' he (hr _ · (by rintro ⟨⟩)), h.seed_ext hw' he,
    fun j' x hx => ?_, ?_⟩
  · by_cases hj : j' = j
    · subst hj
      rw [Consumers.setPrune_self] at hx
      rcases hs.xid h.log with hp | ⟨hp, hread⟩
      · rw [hp] at hx
        cases hx
      · rw [hp] at hx
        cases hx
        exact hread
    · rw [Consumers.setPrune_of_ne hj] at hx
      exact hr (.prune j') x (fun hc => hj (by cases hc; rfl)) hx
  · refine h.alone_of (.prune j) ?_ fun q hq => ?_
    · simp only [Consumers.xid, Consumers.setPrune_self]
      exact (hs.xid h.log).imp_right fun hp => .inr hp.1
    · cases q with
      | consumer key => rfl
      | prune j' =>
        have hj : j' ≠ j := fun hj => hq (hj ▸ rfl)
        simp only [Consumers.xid, Consumers.setPrune_of_ne hj]

/-- The row a seed takes its gaps from owes what it owes. -/
theorem top (h : ConsumersInv registry opts w) (top : Option ConsumerKey) (row : ConsumerStateRow)
    (hr : top.map w.row = some row) :
    ∃ settled burnt, Owes w.log row.lastProcessedEventId row.pendingGaps settled burnt := by
  obtain ⟨key, -, rfl⟩ := Option.map_eq_some_iff.1 hr
  exact ⟨_, _, (h.slot key).owes⟩

/-- Every step that meets the conditions keeps the invariant. -/
theorem step (h : ConsumersInv registry opts w) (hok : BoundsOk opts w a)
    (hs : ConsumersStep registry opts w a w') : ConsumersInv registry opts w' := by
  cases hs with
  | writer hl =>
    exact h.withLog (h.log.step hl) (Log.ext_step hl) fun p x hp => (h.reading hp).step h.log hl
  | @turn key a log slot _ ht =>
    have ⟨he, hw', _⟩ := ht.ext (h.slot key).turn_xid h.log
    refine h.setSlot hw' he (fun p x hp hx => ?_) ((h.slot key).step h.log hok ht) ht.xid
    refine ht.reading h.log (h.reading hx) fun t ht' hxt => hp ?_
    exact h.alone p (.consumer key) x hx (by rw [Consumers.xid, ht', hxt]; rfl)
  | @setStatus key disabled _ ht =>
    have hw' := h.log.statement
    have he := Log.ext_statement h.log
    refine h.setSlot hw' he (fun p x _ hx => (h.reading hx).statement h.log) ?_
      (.inl (by rw [ht]; rfl))
    have := (h.slot key).unlocked ((w.row key).setStatus disabled) h.log hw' he rfl rfl
    rwa [← ht] at this
  | register => exact h.addConsumer (.fromBeginning h.log) rfl
  | check hp =>
    refine h.setRegistration fun key seed seen skipped he => ?_
    rcases hp with rfl | rfl <;> cases he
  | @readSeed _ _ top _ =>
    refine h.setRegistration fun key seed seen skipped he => ?_
    cases he
    exact ⟨.seed h.log (h.top top) (by rintro _ ⟨⟩) hok.1, hok.2⟩
  | @insert r key seed seen skipped hr =>
    have ⟨ho, hz⟩ := h.seed r key seed seen skipped hr
    have h' := h.setRegistration (r := r) (p := .idle) (by rintro _ _ _ _ ⟨⟩)
    exact h'.addConsumer (.registered ho hz) rfl
  | insertConflict => exact h.setRegistration (by rintro _ _ _ _ ⟨⟩)
  | prune hp => exact h.setPrune hp
  | unchanged => exact h

end ConsumersInv

/-- Every step is one of the others' steps for a reader of the log. -/
theorem ConsumersStep.ext (hs : ConsumersStep registry opts w a w')
    (h : ConsumersInv registry opts w) : w.log.Ext w'.log := by
  cases hs with
  | writer hl => exact Log.ext_step hl
  | turn _ ht => exact (ht.ext (h.slot _).turn_xid h.log).1
  | setStatus | register | insert => exact Log.ext_statement h.log
  | check | readSeed | insertConflict | unchanged => exact .refl _
  | prune hp => exact (hp.ext (h.prune_xid _) h.log).1

/-- What a step does to a consumer that is registered: nothing, a step of its turn, or a write of
its row that no turn is in the way of. -/
theorem ConsumersStep.consumer_cases (hs : ConsumersStep registry opts w a w') (hk : key ∈ w.keys) :
    key ∈ w'.keys ∧ (w'.consumer key = w.consumer key ∨
      (∃ b slot, a = .turn key b ∧
        TurnStep (registry key.name) opts w.log (w.consumer key).slot b w'.log slot ∧
        w'.consumer key = { w.consumer key with slot }) ∨
      (w.consumer key).slot.turn = none ∧ ∃ row,
        w'.consumer key = { w.consumer key with slot := { (w.consumer key).slot with row } }) := by
  cases hs with
  | writer | check | readSeed | insertConflict | prune | unchanged => exact ⟨hk, .inl rfl⟩
  | @turn key' b log slot _ ht =>
    refine ⟨hk, ?_⟩
    by_cases hkey : key = key'
    · subst hkey
      exact .inr (.inl ⟨b, slot, rfl, ht, Consumers.setSlot_self⟩)
    · exact .inl (Consumers.setSlot_of_ne hkey)
  | @setStatus key' disabled _ ht =>
    refine ⟨hk, ?_⟩
    by_cases hkey : key = key'
    · subst hkey
      exact .inr (.inr ⟨ht, _, Consumers.setSlot_self⟩)
    · exact .inl (Consumers.setSlot_of_ne hkey)
  | @register key' hnew =>
    have hkey : key ≠ key' := fun he => hnew (he ▸ hk)
    exact ⟨.tail _ hk, .inl (Consumers.addConsumer_of_ne hkey)⟩
  | @insert r key' seed seen skipped _ hnew =>
    have hkey : key ≠ key' := fun he => hnew (he ▸ hk)
    exact ⟨.tail _ hk, .inl (Consumers.addConsumer_of_ne hkey)⟩

/-! ## The cursors -/

variable {c : EventConsumer} {s s' : ConsumerSlot} {w₀ : Consumers}

theorem cursor_le_deliverEach {o : DeliveryOutcome} {rows : List EventRow} {n start : ℕ}
    {answer : EventRow → Option HandlerError} : o.cursor ≤ (deliverEach c n start answer o rows).1.cursor := by
  induction rows generalizing o with
  | nil => exact le_refl _
  | cons row rows ih =>
    rcases deliverEach_cons c n start answer o row rows with
      ⟨o', _, hcur, -, -, -, he⟩ | ⟨o', _, hcur, -, -, -, he⟩ <;> rw [he]
    · exact (hcur ▸ le_max_left _ row.id).trans ih
    · exact hcur.ge

theorem cursor_le_turnDelivery {state : ConsumerStateRow} {xminNow : ℕ} {events : List EventRow}
    {answers : HandlerAnswers} :
    state.lastProcessedEventId ≤ (turnDelivery c opts l state xminNow events answers).outcome.cursor := by
  have delivered (rows : List EventRow) :
      state.lastProcessedEventId ≤ (deliverEvents c rows answers opts.maxAttempts state).1.cursor := by
    unfold deliverEvents
    dsimp only
    split
    · cases answers.batch with
      | error => exact cursor_le_deliverEach (o := .start state none)
      | ok holds =>
        simp only [outcomeOfAppliedBatch]
        cases h : ((rows.map (·.id)).filter fun id => id > state.lastProcessedEventId).getLast? with
        | none => exact le_refl _
        | some id => exact (of_decide_eq_true (List.mem_filter.1 (List.mem_of_getLast? h)).2).le
    · exact cursor_le_deliverEach (o := .start state none)
  simp only [turnDelivery, deliverConsumerTurn, escalateIntakePausedOutcome]
  split_ifs <;> first | exact delivered _ | exact le_refl _

/-- The turn has read the cursor, and what it is to write lies no lower. -/
def Turn.Ahead (cursor : ℕ) (t : Turn) : Prop :=
  t.state.lastProcessedEventId = cursor ∧
    match t.phase with
    | .delivered d _ _ => cursor ≤ d.outcome.cursor
    | .persisted row _ _ => cursor ≤ row.lastProcessedEventId
    | _ => True

def ConsumerSlot.Ahead (s : ConsumerSlot) : Prop := s.turn.elim True (·.Ahead s.row.lastProcessedEventId)

theorem TurnStep.ahead (h : TurnStep c opts l s b l' s') (hs : s.Ahead) :
    s'.Ahead ∧ s.row.lastProcessedEventId ≤ s'.row.lastProcessedEventId := by
  have turn {t : Turn} (ht : s.turn = some t) : t.Ahead s.row.lastProcessedEventId := by
    rwa [ConsumerSlot.Ahead, ht] at hs
  cases h with
  | acquire _ ha => exact ⟨⟨(acquireConsumerState_eq ha).1, trivial⟩, le_refl _⟩
  | acquireSkip => exact ⟨⟨rfl, trivial⟩, le_refl _⟩
  | readXmin ht | fetch ht | deliverNothing ht => exact ⟨⟨(turn ht).1, trivial⟩, le_refl _⟩
  | deliver ht => exact ⟨⟨(turn ht).1, (turn ht).1 ▸ cursor_le_turnDelivery⟩, le_refl _⟩
  | readXmax ht => exact ⟨⟨(turn ht).1, (turn ht).2⟩, le_refl _⟩
  | commit ht => exact ⟨trivial, (turn ht).2⟩
  | commitSkipped ht => exact ⟨trivial, (turn ht).1.ge⟩
  | abort => exact ⟨trivial, le_refl _⟩
  | recordFailure hn => exact ⟨by rw [ConsumerSlot.Ahead, hn]; trivial, le_refl _⟩

/-- No row has gone and no cursor has moved back, nor is a turn about to move one back. -/
def Consumers.Follows (w w' : Consumers) : Prop :=
  ∀ key, (w'.consumer key).slot.Ahead ∧ (key ∈ w.keys → key ∈ w'.keys ∧
    (w.row key).lastProcessedEventId ≤ (w'.row key).lastProcessedEventId)

theorem Consumers.Follows.step (h : w₀.Follows w) (hs : ConsumersStep registry opts w a w') : w₀.Follows w' := by
  have put {log : Log} {k : ConsumerKey} {slot : ConsumerSlot}
      (hk : slot.Ahead ∧ (w.row k).lastProcessedEventId ≤ slot.row.lastProcessedEventId) :
      w₀.Follows (w.setSlot log k slot) := fun key => by
    by_cases he : key = k
    · subst he
      simp only [row, setSlot_self]
      exact ⟨hk.1, fun hm => ((h key).2 hm).imp_right (·.trans hk.2)⟩
    · simp only [row, setSlot_of_ne he]
      exact h key
  cases hs with
  | writer | check | readSeed | insertConflict | prune | unchanged => exact h
  | turn _ ht => exact put (ht.ahead (h _).1)
  | setStatus _ ht => exact put ⟨by rw [ConsumerSlot.Ahead, ht]; trivial, le_refl _⟩
  | @register k hn | @insert _ k _ _ _ _ hn =>
    intro key
    by_cases he : key = k
    · subst he
      rw [addConsumer_self]
      exact ⟨trivial, fun hm => absurd ((h key).2 hm).1 hn⟩
    · simp only [row, addConsumer_of_ne he]
      exact (h key).imp_right fun h hm => (h hm).imp_left (.tail _)

/-- Whatever the parties do, no row goes and no cursor moves back. -/
theorem cursor_le_of_run (w : {w // Run (consumersStep registry opts) (fun _ _ => True) .start w})
    (w' : {w' // Run (consumersStep registry opts) (fun _ _ => True) w.1 w'}) (key : {key // key ∈ w.1.keys}) :
    key.1 ∈ w'.1.keys ∧ (w.1.row key).lastProcessedEventId ≤ (w'.1.row key).lastProcessedEventId := by
  have run {w₀ w w' : Consumers} (hr : Run (consumersStep registry opts) (fun _ _ => True) w w')
      (h : w₀.Follows w) : w₀.Follows w' := hr.invariant h fun _ _ _ h _ hs => h.step (.of_step hs)
  have start : Consumers.start.Follows w := run w.2 fun _ => ⟨trivial, fun hm => ⟨hm, le_refl _⟩⟩
  exact (run w'.2 (fun k => ⟨(start k).1, fun hm => ⟨hm, le_refl _⟩⟩) key).2 key.2

end

end Kumiko
