import Kumiko.Pipeline.Consumers
import Kumiko.Pipeline.NoEventLost

/-!
# Retention and what consumers still owe

A prune that is about to commit has left every active consumer what it still owes (`RetentionSafe`), where no
candidate lies in a pending gap of an active consumer when the guard reads the cursors
(`retention_safe_of_run`). The guard itself does not look at the gaps (`not_retention_safe`).
-/

namespace Kumiko

open Span Transition

/-- The consumer has delivered or skipped the event, or its registration left it behind. -/
def Done (c : EventConsumer) (k : Consumer) (id : ℕ) : Prop :=
  id ∈ resolvedIds c k.slot.calls ∨ id ∈ k.skipped

/-- A prune deletes only what every active consumer is done with. -/
def RetentionSafe (registry : String → EventConsumer) (w : Consumers) : Prop :=
  ∀ j xid ids, w.prunes j = .deleted xid ids → ∀ id ∈ ids, ∀ key ∈ w.keys,
    (w.row key).status ≠ .disabled → Done (registry key.name) (w.consumer key) id

/-- No candidate lies in a pending gap of an active consumer. -/
def GapsClear (w : Consumers) (candidates : List ℕ) : Prop :=
  ∀ key ∈ w.keys, (w.row key).status ≠ .disabled → ∀ id ∈ candidates,
    ¬ Covers (w.row key).pendingGaps id

instance (w : Consumers) (candidates : List ℕ) : Decidable (GapsClear w candidates) :=
  inferInstanceAs (Decidable (∀ key ∈ w.keys, _))

/-- A guard reads the cursors of consumers with no candidate in their gaps. -/
def GuardOk (w : Consumers) : PrunePhase → PruneAct → Prop
  | .selected _ candidates, .guard => GapsClear w candidates
  | _, _ => True

instance (w : Consumers) (p : PrunePhase) (e : PruneAct) : Decidable (GuardOk w p e) := by
  unfold GuardOk
  split <;> infer_instance

/-- The bounds hold, and no guard passes over a gap. -/
def RetentionOk (opts : DispatcherOptions) (w : Consumers) (a : ConsumersAct) : Prop :=
  BoundsOk opts w a ∧
    match a with
    | .prune j e => GuardOk w (w.prunes j) e
    | _ => True

instance (opts : DispatcherOptions) (w : Consumers) (a : ConsumersAct) :
    Decidable (RetentionOk opts w a) := by
  unfold RetentionOk
  refine @instDecidableAnd _ _ inferInstance ?_
  split <;> infer_instance

/-- A turn works on an active consumer, or it skips. -/
def TurnActive (s : ConsumerSlot) : Prop :=
  ∀ t, s.turn = some t →
    match t.phase with
    | .skipped => t.state.status = .disabled ↔ s.row.status = .disabled
    | .persisted row _ _ => row.status ≠ .disabled ∧ s.row.status ≠ .disabled
    | _ => t.state.status ≠ .disabled ∧ s.row.status ≠ .disabled

/-- The consumer has settled the event before its first turn or by a turn that committed. -/
def Consumer.Settled (k : Consumer) (id : ℕ) : Prop := id ∈ k.skipped ++ k.slot.resolved

/-- What a prune knows of its candidates in each phase. -/
def PruneOk (w : Consumers) : PrunePhase → Prop
  | .idle | .locked _ _ => True
  | .selected _ candidates =>
    ∀ id ∈ candidates, ∃ r ∈ w.log.rows, r.id = id ∧ r.xid ∈ w.log.xacts.committed
  | .guarded candidates => ∀ id ∈ candidates, ∀ key ∈ w.keys, (w.row key).status ≠ .disabled →
    (w.consumer key).Settled id ∨ id ∈ w.log.pruned
  | .deleted _ ids => ∀ id ∈ ids, ∀ key ∈ w.keys, (w.row key).status ≠ .disabled →
    (w.consumer key).Settled id

/-- The invariant of the table and of its prunes. -/
structure RetentionInv (registry : String → EventConsumer) (opts : DispatcherOptions)
    (w : Consumers) : Prop where
  table : ConsumersInv registry opts w
  recorded : ∀ key, Recorded (registry key.name) (w.consumer key).slot
  active : ∀ key, TurnActive (w.consumer key).slot
  /-- A prune in progress holds the lock. -/
  locked : ∀ j, w.prunes j ≠ .idle → j ∈ w.shareLocks
  prune : ∀ j, PruneOk w (w.prunes j)

section
variable {registry : String → EventConsumer} {opts : DispatcherOptions} {w w' : Consumers}
  {a : ConsumersAct} {c : EventConsumer} {l l' : Log} {s s' : ConsumerSlot} {b : TurnAct}
  {key : ConsumerKey} {p : PrunePhase}

theorem acquireConsumerState_active {row state : ConsumerStateRow} {cool : Bool}
    (h : acquireConsumerState opts row cool = some state) :
    state.status ≠ .disabled ∧ row.status ≠ .disabled := by
  unfold acquireConsumerState at h
  split at h
  · cases h
  · rename_i hs
    rw [Option.ite_none_right_eq_some] at h
    cases h.2
    exact ⟨by simp [ConsumerStateRow.rearm], by simp [hs]⟩
  · rename_i hs
    cases h
    simp [hs]
  · rename_i hs
    cases h
    simp [hs]

/-- A turn neither disables nor enables its consumer. -/
theorem TurnActive.step (h : TurnActive s) (hs : TurnStep c opts l s b l' s') :
    TurnActive s' ∧ (s'.row.status = .disabled ↔ s.row.status = .disabled) := by
  have next : ∀ {t : Turn} {s' : ConsumerSlot}, s'.turn = some t → s'.row = s.row →
      (match t.phase with
        | .skipped => t.state.status = .disabled ↔ s.row.status = .disabled
        | .persisted row _ _ => row.status ≠ .disabled ∧ s.row.status ≠ .disabled
        | _ => t.state.status ≠ .disabled ∧ s.row.status ≠ .disabled) →
      TurnActive s' ∧ (s'.row.status = .disabled ↔ s.row.status = .disabled) :=
    fun ht hr hp => ⟨fun t' ht' => by cases ht.symm.trans ht'; rw [hr]; exact hp, by rw [hr]⟩
  cases hs with
  | acquire _ ha => exact next rfl rfl (acquireConsumerState_active ha)
  | acquireSkip => exact next rfl rfl Iff.rfl
  | readXmin ht | fetch ht | deliver ht =>
    have := h _ ht
    exact next rfl rfl this
  | deliverNothing ht =>
    have ⟨h₁, h₂⟩ := h _ ht
    exact next rfl rfl (iff_of_false h₁ h₂)
  | @readXmax _ state d burntGaps survivingGaps ht =>
    have ⟨_, h₂⟩ := h _ ht
    refine next rfl rfl ⟨?_, h₂⟩
    simp only [ConsumerStateRow.deliveryOutcome]
    split <;> exact fun hs => nomatch hs
  | commit ht =>
    have ⟨h₁, h₂⟩ := h _ ht
    exact ⟨ConsumerSlot.no_turn rfl, iff_of_false h₁ h₂⟩
  | commitSkipped ht => exact ⟨ConsumerSlot.no_turn rfl, h _ ht⟩
  | abort => exact ⟨ConsumerSlot.no_turn rfl, Iff.rfl⟩
  | recordFailure ht => exact ⟨ConsumerSlot.no_turn ht, Iff.rfl⟩

/-- What committed turns have settled stays settled. -/
theorem TurnStep.resolved_mono (hs : TurnStep c opts l s b l' s') :
    ∀ id ∈ s.resolved, id ∈ s'.resolved := by
  cases hs with
  | commit => exact fun _ hid => List.mem_append_left _ hid
  | acquire | acquireSkip | readXmin | fetch | deliverNothing | deliver | readXmax | commitSkipped
  | abort | recordFailure => exact fun _ hid => hid

/-- What a prune knows stays true while the set of active consumers does not grow, nothing becomes
unsettled and the log moves on. -/
theorem PruneOk.mono (h : PruneOk w p) (he : w.log.Ext w'.log)
    (hk : p ≠ .idle → ∀ key ∈ w'.keys, (w'.row key).status ≠ .disabled →
      key ∈ w.keys ∧ (w.row key).status ≠ .disabled)
    (hset : ∀ key id, (w.consumer key).Settled id → (w'.consumer key).Settled id ∨ p = .idle) :
    PruneOk w' p := by
  cases p with
  | idle | locked => trivial
  | selected _ candidates =>
    intro id hid
    obtain ⟨r, hr, hrid, hx⟩ := h id hid
    exact ⟨r, he.rows r hr, hrid, he.xacts.committed _ hx⟩
  | guarded candidates =>
    intro id hid key hkey hact
    have ⟨hkey, hact⟩ := hk (by rintro ⟨⟩) key hkey hact
    rcases h id hid key hkey hact with hs | hp
    · exact .inl ((hset key id hs).resolve_right (by rintro ⟨⟩))
    · exact .inr (he.pruned id hp)
  | deleted xid ids =>
    intro id hid key hkey hact
    have ⟨hkey, hact⟩ := hk (by rintro ⟨⟩) key hkey hact
    exact (hset key id (h id hid key hkey hact)).resolve_right (by rintro ⟨⟩)

theorem retentionInv_start : RetentionInv registry opts .start where
  table := consumersInv_start
  recorded _ := ⟨(fun _ h => nomatch h), ConsumerSlot.no_turn rfl⟩
  active _ := ConsumerSlot.no_turn rfl
  locked _ hj := absurd rfl hj
  prune _ := trivial

/-- The guard has done its work: an active consumer has settled every candidate that is still there,
for none of them is in a gap. -/
theorem RetentionInv.guarded (h : RetentionInv registry opts w) {options : PruneEventsOptions}
    {candidates : List ℕ} (hp : PruneOk w (.selected options candidates))
    (hc : checkConsumers w.rows candidates = .ok ()) (hg : GapsClear w candidates) :
    PruneOk w (.guarded candidates) := by
  intro id hid key hkey hact
  have hle := checkConsumers_ok hc (key.name, w.row key) (List.mem_map_of_mem hkey) hact id hid
  obtain ⟨r, hr, rfl, hx⟩ := hp id hid
  rcases (h.table.slot key).owes.accounted r hr hle with hs | hcov | hab | hpr
  · exact .inl hs
  · exact absurd hcov (hg key hkey hact r.id hid)
  · exact absurd hx hab.2.2
  · exact .inr hpr

/-- What a prune's own step leads to. -/
theorem RetentionInv.pruneStep (h : RetentionInv registry opts w) {j : ℕ} {e : PruneAct}
    (hok : RetentionOk opts w (.prune j e)) (hs : PruneStep w.log w.rows (w.prunes j) e l' p) :
    PruneOk w p := by
  have hp := h.prune j
  have hg : GuardOk w (w.prunes j) e := hok.2
  revert hp hg hs
  generalize w.prunes j = q
  intro hs hp hg
  cases hs with
  | lock | commit | abort | stop => trivial
  | select =>
    intro id hid
    obtain ⟨r, hr, he⟩ := mem_selectPruneCandidates hid
    have ⟨hr, hv⟩ := Log.mem_visibleRows.1 hr
    exact ⟨r, hr, he, hv.1⟩
  | guard hc => exact h.guarded hp hc hg
  | delete =>
    intro id hid key hkey hact
    obtain ⟨hvis, hcand⟩ := List.mem_filter.1 hid
    obtain ⟨r, hr, rfl⟩ := List.mem_map.1 hvis
    refine (hp r.id (of_decide_eq_true hcand) key hkey hact).resolve_right ?_
    exact (Log.mem_visibleRows.1 hr).2.2

/-- A prune in progress keeps the writes of the others off the table. -/
theorem RetentionInv.no_prune (h : RetentionInv registry opts w) (hl : w.shareLocks = []) (j : ℕ) :
    w.prunes j = .idle := by
  by_contra hne
  have := h.locked j hne
  rw [hl] at this
  cases this

/-- Without a prune in progress there is nothing to keep. -/
theorem RetentionInv.pruneOk_of_unlocked (h : RetentionInv registry opts w) (hl : w.shareLocks = [])
    (hp : w'.prunes = w.prunes) (j : ℕ) : PruneOk w' (w'.prunes j) := by
  rw [hp, h.no_prune hl j]
  trivial

/-- A row is inserted while no prune is in progress. -/
theorem RetentionInv.addConsumer (h : RetentionInv registry opts w) {k : Consumer}
    (ht : ConsumersInv registry opts (w.addConsumer key k)) (hl : w.shareLocks = [])
    (hk : k.slot.turn = none) (hr : k.slot.resolved = []) :
    RetentionInv registry opts (w.addConsumer key k) where
  table := ht
  recorded key' := by
    by_cases hkey : key' = key
    · subst hkey
      rw [Consumers.addConsumer_self]
      exact ⟨(by rw [hr]; exact fun _ h => nomatch h), ConsumerSlot.no_turn hk⟩
    · rw [Consumers.addConsumer_of_ne hkey]
      exact h.recorded key'
  active key' := by
    by_cases hkey : key' = key
    · subst hkey
      rw [Consumers.addConsumer_self]
      exact ConsumerSlot.no_turn hk
    · rw [Consumers.addConsumer_of_ne hkey]
      exact h.active key'
  locked := h.locked
  prune := h.pruneOk_of_unlocked hl rfl

theorem RetentionInv.step (h : RetentionInv registry opts w) (hok : RetentionOk opts w a)
    (hs : ConsumersStep registry opts w a w') : RetentionInv registry opts w' := by
  have ht := h.table.step hok.1 hs
  cases hs with
  | writer hl =>
    exact ⟨ht, h.recorded, h.active, h.locked, fun j => (h.prune j).mono (Log.ext_step hl)
      (fun _ _ hk hact => ⟨hk, hact⟩) fun _ _ hs => .inl hs⟩
  | @turn key b log slot hkey hturn =>
    have ⟨he, _⟩ := hturn.ext (h.table.slot key).turn_xid h.table.log
    have ⟨hact, hstatus⟩ := (h.active key).step hturn
    refine ⟨ht, fun key' => ?_, fun key' => ?_, h.locked, fun j => ?_⟩
    · by_cases hk : key' = key
      · subst hk
        rw [Consumers.setSlot_self]
        exact (h.recorded key').step hturn
      · rw [Consumers.setSlot_of_ne hk]
        exact h.recorded key'
    · by_cases hk : key' = key
      · subst hk
        rwa [Consumers.setSlot_self]
      · rw [Consumers.setSlot_of_ne hk]
        exact h.active key'
    · refine (h.prune j).mono he (fun _ key' hk hact' => ⟨hk, ?_⟩) fun key' id hset => .inl ?_
      · by_cases hk' : key' = key
        · subst hk'
          rw [Consumers.row, Consumers.setSlot_self] at hact'
          exact fun hd => hact' (hstatus.2 hd)
        · rwa [Consumers.row, Consumers.setSlot_of_ne hk'] at hact'
      · by_cases hk' : key' = key
        · subst hk'
          rw [Consumers.setSlot_self]
          rcases List.mem_append.1 hset with hset | hset
          · exact List.mem_append_left _ hset
          · exact List.mem_append_right _ (hturn.resolved_mono id hset)
        · rwa [Consumers.setSlot_of_ne hk']
  | @setStatus key disabled _ hnone hl =>
    refine ⟨ht, fun key' => ?_, fun key' => ?_, h.locked, h.pruneOk_of_unlocked hl rfl⟩
    · by_cases hk : key' = key
      · subst hk
        rw [Consumers.setSlot_self]
        exact ⟨(h.recorded key').resolved, ConsumerSlot.no_turn hnone⟩
      · rw [Consumers.setSlot_of_ne hk]
        exact h.recorded key'
    · by_cases hk : key' = key
      · subst hk
        rw [Consumers.setSlot_self]
        exact ConsumerSlot.no_turn hnone
      · rw [Consumers.setSlot_of_ne hk]
        exact h.active key'
  | register _ hl => exact h.addConsumer ht hl rfl rfl
  | check | readSeed | insertConflict => exact ⟨ht, h.recorded, h.active, h.locked, h.prune⟩
  | @insert r key seed seen skipped hr hk hl =>
    have hidle : RetentionInv registry opts (w.setRegistration r .idle) :=
      ⟨h.table.setRegistration (by rintro _ _ _ _ ⟨⟩), h.recorded, h.active, h.locked, h.prune⟩
    exact hidle.addConsumer ht hl rfl rfl
  | @prune j e log p hprune =>
    have he := (hprune.ext (h.table.prune_xid j) h.table.log).1
    have frame : ∀ q, PruneOk w q → PruneOk (w.setPrune log j p) q := fun q hq =>
      hq.mono he (fun _ _ hk hact => ⟨hk, hact⟩) fun _ _ hs => .inl hs
    refine ⟨ht, h.recorded, h.active, fun j' hj' => ?_, fun j' => ?_⟩
    · by_cases hj : j' = j
      · subst hj
        rw [Consumers.setPrune_self] at hj'
        simp only [Consumers.setPrune, if_neg hj']
        exact .head _
      · rw [Consumers.setPrune_of_ne hj] at hj'
        have hm : j' ∈ w.shareLocks.filter (· ≠ j) :=
          List.mem_filter.2 ⟨h.locked j' hj', decide_eq_true hj⟩
        simp only [Consumers.setPrune]
        split
        · exact hm
        · exact .tail _ hm
    · by_cases hj : j' = j
      · subst hj
        rw [Consumers.setPrune_self]
        exact frame p (h.pruneStep hok hprune)
      · rw [Consumers.setPrune_of_ne hj]
        exact frame _ (h.prune j')
  | unchanged => exact h

theorem RetentionInv.safe (h : RetentionInv registry opts w) : RetentionSafe registry w := by
  intro j xid ids hj id hid key hkey hact
  have hp := h.prune j
  rw [hj] at hp
  rcases List.mem_append.1 (hp id hid key hkey hact) with hs | hs
  · exact .inr hs
  · exact .inl ((h.recorded key).resolved id hs)

/-- In every run that meets the conditions, no prune deletes what an active consumer still owes. -/
theorem retention_safe_of_run (hr : Run (consumersStep registry opts) (RetentionOk opts) .start w) :
    RetentionSafe registry w :=
  (hr.invariant retentionInv_start fun _ _ _ h hok hs => h.step hok (.of_step hs)).safe

end

/-! ## The event that is deleted too early -/

/-- Every order older than one nanosecond. -/
def pruneOrders : PruneEventsOptions :=
  { olderThan := some 1, olderThanDays := none, aggregateTypes := ["order"], aggregateIds := none,
    dryRun := false, batchSize := none }

/-- The consumer of the runs below. -/
def someConsumer : ConsumerKey := ⟨"mail", "shared"⟩

/-- A consumer moves over the id of a writer in flight and records the gap, and the writer commits.
Then come some steps of the consumer's turns, and a prune up to its commit. -/
def pruneAfter (turns : List TurnAct) : List ConsumersAct :=
  [.register someConsumer, .writer .claim, .writer .claim, .writer (.draw 2), .writer (.draw 3),
    .writer (.insert 2 1 (someEvent "a" 1)), .writer (.insert 3 2 (someEvent "b" 1)),
    .writer (.commit 3)] ++
  (fullTurn .allOk).map (.turn someConsumer) ++ [.writer (.commit 2)] ++
  turns.map (.turn someConsumer) ++
  [.prune 0 (.lock pruneOrders 0), .prune 0 .select, .prune 0 .guard, .prune 0 .delete]

/-- The consumer is handed the late event before the prune. -/
theorem retention_safe_of_run_drained : ∃ w : Consumers,
    RetentionSafe (fun _ => perEventConsumer) w ∧ (w.prunes 0 = .deleted 6 [1, 2]) ∧
      (w.consumer someConsumer).slot.resolved = [2, 1] := by
  have ⟨w, hr, hw⟩ := exists_run_of_execOk
    (consumersStep (fun _ => perEventConsumer) .default) (fun w a => RetentionOk .default w a)
    .start (pruneAfter (fullTurn .allOk))
    (fun w => w.prunes 0 == .deleted 6 [1, 2] &&
      (w.consumer someConsumer).slot.resolved == [2, 1])
    (fun _ _ => of_decide_eq_true) (by decide +kernel) (by decide +kernel)
  simp only [Bool.and_eq_true, beq_iff_eq] at hw
  exact ⟨w, retention_safe_of_run hr, hw⟩

/-- The prune comes before the turn that would deliver the late event: the guard compares cursors,
the event lies below the cursor in a gap, and it is deleted. -/
theorem not_retention_safe : ¬ ∀ (registry : String → EventConsumer) (opts : DispatcherOptions)
    (w : Consumers), Run (consumersStep registry opts) (fun _ _ => True) .start w →
    RetentionSafe registry w := fun h => by
  obtain ⟨w, hr, hw⟩ := exists_run_of_exec
    (consumersStep (fun _ => perEventConsumer) .default) .start (pruneAfter [])
    (fun w => w.prunes 0 == .deleted 5 [1, 2] && decide (someConsumer ∈ w.keys) &&
      (w.row someConsumer).status == .idle &&
      1 ∉ resolvedIds perEventConsumer (w.consumer someConsumer).slot.calls &&
      1 ∉ (w.consumer someConsumer).skipped)
    (by decide +kernel)
  simp only [Bool.and_eq_true, decide_eq_true_eq, beq_iff_eq] at hw
  obtain ⟨⟨⟨⟨hp, hkey⟩, hstatus⟩, hres⟩, hskip⟩ := hw
  have hact : (w.row someConsumer).status ≠ .disabled := by
    rw [hstatus]
    decide
  exact (h _ _ w hr 0 5 [1, 2] hp 1 (.head _) someConsumer hkey hact).elim hres hskip

end Kumiko
