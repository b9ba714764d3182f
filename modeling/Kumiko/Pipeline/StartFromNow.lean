import Kumiko.Pipeline.Consumers
import Kumiko.Pipeline.NoEventLost

/-!
# A consumer that starts from now

A consumer registered from now on is handed exactly the events that its registration did not see
(`StartsAfter`), on the conditions of `FromNowOk` (`starts_after_of_run`): two about `xmax`, and one about the
gaps taken over from the consumer with the highest cursor, which may hold an event from before the registration.
Without them a writer's event may be lost (`not_starts_after`).
-/

namespace Kumiko

open Span Transition

/-- Every visible event was settled before the first turn or by one. -/
def CaughtUp (l : Log) (k : Consumer) : Prop :=
  ∀ r ∈ l.visibleRows, r.id ≤ k.slot.row.lastProcessedEventId ∧
    ¬ Covers k.slot.row.pendingGaps r.id

/-- The consumer is handed exactly what was not visible when its registration read its seed. -/
structure StartsAfter (c : EventConsumer) (l : Log) (k : Consumer) : Prop where
  /-- No handler is called with an event that was visible then. -/
  none_seen : ∀ call ∈ k.slot.calls, ∀ e ∈ call.events, e.id ∉ k.seen
  /-- Turns resolve by handler calls, and no event twice. -/
  resolved : ∀ id ∈ k.slot.resolved, id ∈ resolvedIds c k.slot.calls
  once : k.slot.resolved.Nodup
  /-- Every other visible event is resolved or still to be fetched. -/
  all : ∀ r ∈ l.visibleRows, r.id ∉ k.seen → r.id ∈ k.slot.resolved ∨
    Covers k.slot.row.pendingGaps r.id ∨ k.slot.row.lastProcessedEventId < r.id
  /-- With nothing left to fetch, it has resolved exactly the others. -/
  exactly : CaughtUp l k → ∀ r ∈ l.visibleRows, r.id ∈ k.slot.resolved ↔ r.id ∉ k.seen

/-- The bounds hold, and the gaps that a registration takes over hold no event that is visible
already. -/
def FromNowOk (opts : DispatcherOptions) (w : Consumers) (a : ConsumersAct) : Prop :=
  BoundsOk opts w a ∧
    match a with
    | .readSeed _ top => ∀ id ∈ w.log.visibleIds, ¬ Covers (takenOverGaps (top.map w.row)) id
    | _ => True

instance (opts : DispatcherOptions) (w : Consumers) (a : ConsumersAct) :
    Decidable (FromNowOk opts w a) := by
  unfold FromNowOk
  refine @instDecidableAnd _ _ inferInstance ?_
  match a with
  | .readSeed .. => exact inferInstanceAs (Decidable (∀ id ∈ _, ¬ Covers _ id))
  | .writer _ | .turn .. | .setStatus .. | .register _ | .check .. | .insert _ | .prune .. => exact .isTrue trivial

section
variable {registry : String → EventConsumer} {opts : DispatcherOptions} {w w' : Consumers}
  {a : ConsumersAct} {c : EventConsumer} {base : List ℕ} {l l' : Log} {s s' : ConsumerSlot}
  {b : TurnAct} {key : ConsumerKey}

/-- A turn hands over only what was not settled before. -/
theorem SlotInv.calls (h : SlotInv c opts base l s) (hs : TurnStep c opts l s b l' s') :
    ∀ call ∈ s'.calls, call ∈ s.calls ∨ ∀ e ∈ call.events, e.id ∉ base ++ s.resolved := by
  cases hs with
  | @deliver xid xminNow state events answers ht hne =>
    intro call hcall
    refine (List.mem_append.1 hcall).imp_right fun hcall e he hmem => ?_
    obtain ⟨-, hf⟩ := h.turn_phase _ ht
    have ⟨h₁, h₂⟩ := h.turn_state _ ht
    have he := (deliverConsumerTurn_spec hf.sorted _ rfl).calls_events call hcall e he
    have ⟨_, _, hwhere⟩ := hf.mem e (deliverable_sublist.subset he)
    have ⟨hle, hn, _⟩ := h.owes.settled_mem e.id hmem
    dsimp only at h₁ h₂ hwhere
    rw [h₁, h₂] at hwhere
    exact hwhere.elim (Nat.not_lt.2 hle) hn
  | acquire | acquireSkip | readXmin | fetch | deliverNothing | readXmax | commit | commitSkipped
  | abort | recordFailure => exact fun _ hcall => .inl hcall

/-- What a consumer's own turns keep. -/
structure FromNow (c : EventConsumer) (k : Consumer) : Prop where
  skipped : k.skipped = k.seen
  recorded : Recorded c k.slot
  calls : ∀ call ∈ k.slot.calls, ∀ e ∈ call.events, e.id ∉ k.skipped

/-- A fresh row has no calls. -/
theorem FromNow.registered {cursor : ℕ} {gaps : List PendingGapEntry} {ids : List ℕ} :
    FromNow c ⟨.registered cursor gaps, ids, ids⟩ :=
  ⟨rfl, ⟨(fun _ h => nomatch h), ConsumerSlot.no_turn rfl⟩, fun _ h => nomatch h⟩

/-- The invariant of the table, of every consumer and of every seed. -/
structure FromNowInv (registry : String → EventConsumer) (opts : DispatcherOptions)
    (w : Consumers) : Prop where
  table : ConsumersInv registry opts w
  consumer : ∀ key, FromNow (registry key.name) (w.consumer key)
  seed : ∀ r key seed seen skipped, w.registrations r = .seeded key seed seen skipped →
    skipped = seen

theorem fromNowInv_start : FromNowInv registry opts .start :=
  ⟨consumersInv_start, fun _ => .registered, by rintro _ _ _ _ _ ⟨⟩⟩

/-- The seed of a registration that takes over no visible id settles all that is visible. -/
theorem FromNowInv.readSeed (h : FromNowInv registry opts w) {top : Option ConsumerKey}
    (hv : ∀ id ∈ w.log.visibleIds, ¬ Covers (takenOverGaps (top.map w.row)) id) :
    (w.log.visibleIds.filter fun id => ¬ Covers (w.seed top).gaps id) = w.log.visibleIds := by
  cases top with
  | none => exact seed_settles_all h.table.log ordered_nil (fun _ hg => nomatch hg) hv
  | some top =>
    have ho := (h.table.slot top).owes
    exact seed_settles_all h.table.log ho.ordered ho.below hv

/-- A slot moves on. -/
theorem FromNowInv.setSlot (h : FromNowInv registry opts w) {slot : ConsumerSlot}
    (ht : ConsumersInv registry opts (w.setSlot l key slot))
    (hs : FromNow (registry key.name) { w.consumer key with slot }) :
    FromNowInv registry opts (w.setSlot l key slot) where
  table := ht
  consumer key' := by
    by_cases hk : key' = key
    · subst hk
      rwa [Consumers.setSlot_self]
    · rw [Consumers.setSlot_of_ne hk]
      exact h.consumer key'
  seed := h.seed

/-- A row is inserted. -/
theorem FromNowInv.addConsumer (h : FromNowInv registry opts w) {k : Consumer}
    (ht : ConsumersInv registry opts (w.addConsumer key k)) (hk : FromNow (registry key.name) k) :
    FromNowInv registry opts (w.addConsumer key k) where
  table := ht
  consumer key' := by
    by_cases hkey : key' = key
    · subst hkey
      rwa [Consumers.addConsumer_self]
    · rw [Consumers.addConsumer_of_ne hkey]
      exact h.consumer key'
  seed := h.seed

/-- A registration moves on. -/
theorem FromNowInv.setRegistration (h : FromNowInv registry opts w) {r : ℕ} {p : Registration}
    (ht : ConsumersInv registry opts (w.setRegistration r p))
    (hp : ∀ key seed seen skipped, p = .seeded key seed seen skipped → skipped = seen) :
    FromNowInv registry opts (w.setRegistration r p) where
  table := ht
  consumer := h.consumer
  seed r' key seed seen skipped hr := by
    by_cases hrr : r' = r
    · subst hrr
      rw [Consumers.setRegistration_self] at hr
      exact hp key seed seen skipped hr
    · rw [Consumers.setRegistration_of_ne hrr] at hr
      exact h.seed r' key seed seen skipped hr

theorem FromNowInv.step (h : FromNowInv registry opts w) (hok : FromNowOk opts w a)
    (hs : ConsumersStep registry opts w a w') : FromNowInv registry opts w' := by
  have ht := h.table.step hok.1 hs
  cases hs with
  | writer | prune => exact ⟨ht, h.consumer, h.seed⟩
  | @turn key b log slot _ hturn =>
    have hc := h.consumer key
    refine h.setSlot ht ⟨hc.skipped, hc.recorded.step hturn, fun call hcall e he hmem => ?_⟩
    rcases (h.table.slot key).calls hturn call hcall with hold | hnew
    · exact hc.calls call hold e he hmem
    · exact hnew e he (List.mem_append_left _ hmem)
  | @setStatus key disabled _ hnone =>
    have hc := h.consumer key
    exact h.setSlot ht ⟨hc.skipped, ⟨hc.recorded.resolved, ConsumerSlot.no_turn hnone⟩, hc.calls⟩
  | register => exact h.addConsumer ht .registered
  | check hp =>
    refine h.setRegistration ht fun key seed seen skipped he => ?_
    rcases hp with rfl | rfl <;> cases he
  | readSeed =>
    refine h.setRegistration ht fun key seed seen skipped he => ?_
    cases he
    exact h.readSeed hok.2
  | @insert r key seed seen skipped hr =>
    obtain rfl := h.seed r key seed seen skipped hr
    have hidle := h.setRegistration (r := r) (p := .idle)
      (h.table.setRegistration (by rintro _ _ _ _ ⟨⟩)) (by rintro _ _ _ _ ⟨⟩)
    exact hidle.addConsumer ht .registered
  | insertConflict => exact h.setRegistration ht (by rintro _ _ _ _ ⟨⟩)
  | unchanged => exact h

theorem FromNowInv.startsAfter (h : FromNowInv registry opts w) (key : ConsumerKey) :
    StartsAfter (registry key.name) w.log (w.consumer key) := by
  have hc := h.consumer key
  have ho := (h.table.slot key).owes
  have hn := List.nodup_append.1 ho.nodup
  have all : ∀ r ∈ w.log.visibleRows, r.id ∉ (w.consumer key).seen →
      r.id ∈ (w.consumer key).slot.resolved ∨
        Covers (w.consumer key).slot.row.pendingGaps r.id ∨
        (w.consumer key).slot.row.lastProcessedEventId < r.id := fun r hr hseen => by
    obtain ⟨hr, hx, hp⟩ := Log.mem_visibleRows.1 hr
    rcases Nat.lt_or_ge (w.consumer key).slot.row.lastProcessedEventId r.id with hlt | hle
    · exact .inr (.inr hlt)
    rcases ho.accounted r hr hle with hs | hcov | hab | hpr
    · refine .inl ((List.mem_append.1 hs).resolve_left fun hsk => hseen ?_)
      exact hc.skipped ▸ hsk
    · exact .inr (.inl hcov)
    · exact absurd hx hab.2.2
    · exact absurd hpr hp
  refine ⟨fun call hcall e he => hc.skipped ▸ hc.calls call hcall e he, hc.recorded.resolved,
    hn.2.1, all, fun hup r hr => ⟨fun hres hseen => ?_, fun hseen => ?_⟩⟩
  · exact hn.2.2 r.id (hc.skipped ▸ hseen) r.id hres rfl
  · have ⟨hle, hcov⟩ := hup r hr
    exact (all r hr hseen).resolve_right fun hor => hor.elim hcov (Nat.not_lt.2 hle)

/-- In every run that meets the conditions, every consumer is handed exactly the events that its
registration did not see. -/
theorem starts_after_of_run (hr : Run (consumersStep registry opts) (FromNowOk opts) .start w)
    (key : ConsumerKey) : StartsAfter (registry key.name) w.log (w.consumer key) :=
  (hr.invariant fromNowInv_start fun _ _ _ h hok hs => h.step hok (.of_step hs)).startsAfter key

end

/-! ## The event that is lost for the new consumer -/

/-- The consumer that is registered. -/
def newConsumer : ConsumerKey := ⟨"new", "shared"⟩

/-- Two writers; the one that draws the lower id, `late`, commits after the registration, the other
before it. -/
def registerDuring (late early : ℕ) : List ConsumersAct :=
  [.writer .claim, .writer .claim, .writer (.draw late), .writer (.draw early),
    .writer (.insert late 1 (someEvent "a" 1)), .writer (.insert early 2 (someEvent "b" 1)),
    .writer (.commit early), .check 0 newConsumer, .readSeed 0 none, .insert 0,
    .writer (.commit late)]

/-- The writer with the lower transaction id commits late: the new consumer is handed its event and
not the one that was committed before. -/
theorem starts_after_of_run_lateCommit : ∃ w : Consumers,
    StartsAfter perEventConsumer w.log (w.consumer newConsumer) ∧
      (w.consumer newConsumer).seen = [2] ∧ (w.consumer newConsumer).slot.resolved = [1] := by
  have ⟨w, hr, hw⟩ := exists_run_of_execOk
    (consumersStep (fun _ => perEventConsumer) .default) (fun w a => FromNowOk .default w a) .start
    (registerDuring 1 2 ++ (fullTurn .allOk).map (.turn newConsumer))
    (fun w => (w.consumer newConsumer).seen == [2] &&
      (w.consumer newConsumer).slot.resolved == [1])
    (fun _ _ => of_decide_eq_true) (by decide +kernel) (by decide +kernel)
  simp only [Bool.and_eq_true, beq_iff_eq] at hw
  exact ⟨w, starts_after_of_run hr newConsumer, hw⟩

/-- The writer with the higher transaction id commits late: the snapshot of the registration lists no
running transaction, so the hole at its id is not recorded, and the new consumer never gets its
event. -/
theorem not_starts_after : ¬ ∀ (registry : String → EventConsumer) (opts : DispatcherOptions)
    (w : Consumers), Run (consumersStep registry opts) (fun _ _ => True) .start w →
    ∀ key ∈ w.keys, StartsAfter (registry key.name) w.log (w.consumer key) := fun h => by
  have ⟨w, hr, hw⟩ := exists_run_of_exec
    (consumersStep (fun _ => perEventConsumer) .default) .start (registerDuring 2 1)
    (fun w => decide (newConsumer ∈ w.keys) && w.log.visibleRows.any fun r =>
      r.id ∉ (w.consumer newConsumer).seen && r.id ∉ (w.consumer newConsumer).slot.resolved &&
        !Covers (w.consumer newConsumer).slot.row.pendingGaps r.id &&
        r.id ≤ (w.consumer newConsumer).slot.row.lastProcessedEventId)
    (by decide +kernel)
  simp only [Bool.and_eq_true, decide_eq_true_eq, List.any_eq_true, Bool.not_eq_true',
    decide_eq_false_iff_not] at hw
  obtain ⟨hkey, r, hvis, ⟨⟨hseen, hres⟩, hcov⟩, hle⟩ := hw
  rcases (h _ _ w hr newConsumer hkey).all r hvis hseen with h' | h' | h'
  · exact hres h'
  · exact hcov h'
  · exact Nat.not_lt.2 hle h'

end Kumiko
