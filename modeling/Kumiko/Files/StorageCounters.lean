import Kumiko.EventStore.Transfer
import Kumiko.Library.KeyedSums
import Kumiko.Pipeline.PendingGapRanges
import Mathlib.Algebra.Order.BigOperators.Group.List
import Mathlib.Algebra.Order.Group.Int

/-!
# Storage counters

`files/storage-tracking.ts`: what a fileRef event moves a tenant's counters by, the upserts of the projection,
and the share that a handover takes along. A counter that counts what has been applied stays so
(`Counted.applyRow`, `Counted.move`).
-/

namespace Kumiko

open Span KeyedSums

/-- The type of a fileRef event, with the part of its payload that the projection reads. -/
inductive FileRefEvent
  | created (size : ℕ)
  | deleted (previousSize : ℕ)
  | restored (previousSize : ℕ)
  | forgotten
  deriving DecidableEq

/-- Reference: `FILE_REF_AGGREGATE_TYPE`. -/
def fileRefAggregateType : String := "fileRef"

/-- Reference: `entityEventName`. -/
def FileRefEvent.type : FileRefEvent → String
  | .created _ => "fileRef.created"
  | .deleted _ => "fileRef.deleted"
  | .restored _ => "fileRef.restored"
  | .forgotten => "fileRef.forgotten"

/-- Bytes and files. Reference: `fileRefStorageDelta`. -/
def fileRefStorageDelta : FileRefEvent → Option (ℤ × ℤ)
  | .created size => some (size, 1)
  | .deleted previousSize => some (0 - previousSize, -1)
  | .restored previousSize => some (previousSize, 1)
  | .forgotten => none

/-- `totalBytes` and `fileCount` of the tenants that have a row. Reference: `tenantStorageUsageTable`. -/
abbrev StorageUsage := String → Option (ℤ × ℤ)

/-- An upsert: a new row gets the inserted values, an old one is incremented. Reference: `incrementCounter`. -/
def incrementCounter (usage : StorageUsage) (tenantId : String) (inserted increment : ℤ × ℤ) : StorageUsage :=
  Function.update usage tenantId (some (match usage tenantId with
    | some counter => counter + increment
    | none => inserted))

/-- The handlers of the projection. Reference: `filesStorageTrackingFeature`. -/
def applyStorageEvent (usage : StorageUsage) (tenantId : String) (event : FileRefEvent) : StorageUsage :=
  match fileRefStorageDelta event with
  | none => usage
  | some delta =>
    match event with
    | .deleted _ => incrementCounter usage tenantId 0 delta
    | _ => incrementCounter usage tenantId delta delta

/-- What the row of an event moves the counters by; `payload` has the fileRef events by their ids. -/
def storageDelta (payload : ℕ → Option FileRefEvent) (r : EventRow) : ℤ × ℤ :=
  ((payload r.id).bind fileRefStorageDelta).getD 0

/-- The row is a fileRef's event. -/
def EventRow.IsOfFile (r : EventRow) (fileId : String) : Prop :=
  r.aggregateType = fileRefAggregateType ∧ r.aggregateId = fileId

instance (r : EventRow) (fileId : String) : Decidable (r.IsOfFile fileId) := inferInstanceAs (Decidable (_ ∧ _))

/-- The consumer of the projection has applied the event, by its cursor and its gaps. -/
def AppliedBy (cursor : ℕ) (gaps : List PendingGapEntry) (r : EventRow) : Prop := r.id ≤ cursor ∧ ¬ Covers gaps r.id

instance (cursor : ℕ) (gaps : List PendingGapEntry) (r : EventRow) : Decidable (AppliedBy cursor gaps r) :=
  inferInstanceAs (Decidable (_ ∧ _))

/-- The events whose share moves. -/
def ShareMoves (cursor : ℕ) (gaps : List PendingGapEntry) (fileRefIds : List String) (source : String)
    (r : EventRow) : Prop :=
  r.tenantId = source ∧ r.aggregateType = fileRefAggregateType ∧ r.aggregateId ∈ fileRefIds ∧ AppliedBy cursor gaps r

instance (cursor : ℕ) (gaps : List PendingGapEntry) (fileRefIds : List String) (source : String) (r : EventRow) :
    Decidable (ShareMoves cursor gaps fileRefIds source r) := inferInstanceAs (Decidable (_ ∧ _))

/-- The applied share of the files; without a consumer row nothing has been applied. Reference:
`transferTenantStorageUsage`, the loop over the rows. -/
def appliedShare (payload : ℕ → Option FileRefEvent) (consumer : Option (ℕ × List PendingGapEntry))
    (rows : List EventRow) (fileRefIds : List String) (source : String) : ℤ × ℤ :=
  match consumer with
  | none => 0
  | some (cursor, gaps) => sumWhere (storageDelta payload) rows (ShareMoves cursor gaps fileRefIds source)

/-- The two upserts. -/
def moveShare (usage : StorageUsage) (source destination : String) (share : ℤ × ℤ) : StorageUsage :=
  if share = 0 then usage
  else incrementCounter (incrementCounter usage source 0 (-share)) destination share share

/-- Reference: `transferTenantStorageUsage`. -/
def transferTenantStorageUsage (payload : ℕ → Option FileRefEvent) (consumer : Option (ℕ × List PendingGapEntry))
    (rows : List EventRow) (fileRefIds : List String) (source destination : String) (usage : StorageUsage) :
    StorageUsage :=
  moveShare usage source destination (appliedShare payload consumer rows fileRefIds source)

/-! ## The states of a file -/

/-- What the events of a file have made of it. -/
inductive FileRefState
  | absent
  | live (size : ℕ)
  | deleted (size : ℕ)
  | forgotten

namespace FileRefState

/-- The state after an event that states the size of the file. A live file is not forgotten here. -/
def next : FileRefState → FileRefEvent → Option FileRefState
  | absent, .created size => some (live size)
  | live size, .deleted previousSize => if previousSize = size then some (deleted size) else none
  | deleted size, .restored previousSize => if previousSize = size then some (live size) else none
  | deleted _, .forgotten => some forgotten
  | _, _ => none

/-- What the file takes of the storage. -/
def share : FileRefState → ℤ × ℤ
  | live size => (size, 1)
  | _ => 0

/-- The state after a file's events. -/
def replay (events : List FileRefEvent) : Option FileRefState := events.foldlM next absent

variable {state state' : FileRefState} {event : FileRefEvent} {events events' : List FileRefEvent} {n : ℕ}

/-- An event moves the counters by what it changes of the share. -/
theorem share_next (h : state.next event = some state') :
    state'.share = state.share + (fileRefStorageDelta event).getD 0 := by
  cases state <;> cases event <;> simp only [next, Option.ite_none_right_eq_some, reduceCtorEq] at h
  case absent.created =>
    cases h
    simp [share, fileRefStorageDelta]
  case live.deleted =>
    obtain ⟨rfl, h⟩ := h
    cases h
    simp [share, fileRefStorageDelta]
    rfl
  case deleted.restored =>
    obtain ⟨rfl, h⟩ := h
    cases h
    simp [share, fileRefStorageDelta]
  case deleted.forgotten =>
    cases h
    simp [share, fileRefStorageDelta]

theorem live_of_deleted (h : state.next (.deleted n) = some state') : state.share ≠ 0 := by
  cases state with
  | live size => simp [share]
  | absent | deleted | forgotten => cases h

theorem share_nonneg (state : FileRefState) : 0 ≤ state.share := by
  cases state <;> simp [share, Prod.le_def]

theorem replay_append : replay (events ++ events') = (replay events).bind fun state => events'.foldlM next state :=
  List.foldlM_append ..

theorem replay_concat : replay (events ++ [event]) = (replay events).bind fun state => state.next event := by
  rw [replay_append]
  simp

/-- What can be replayed can be replayed up to every event. -/
theorem replay_of_prefix (h : replay events' = some state) (hp : events <+: events') :
    ∃ state, replay events = some state := by
  obtain ⟨rest, rfl⟩ := hp
  rw [replay_append] at h
  obtain ⟨state, hs, -⟩ := Option.bind_eq_some_iff.1 h
  exact ⟨state, hs⟩

/-- The events of a file move the counters by its share. -/
theorem share_replay (h : replay events = some state) :
    (events.map fun event => (fileRefStorageDelta event).getD 0).sum = state.share := by
  induction events using List.reverseRecOn generalizing state with
  | nil =>
    cases h
    rfl
  | append_singleton events event ih =>
    rw [replay_concat] at h
    obtain ⟨before, hb, hn⟩ := Option.bind_eq_some_iff.1 h
    rw [List.map_append, List.sum_append, ih hb, share_next hn]
    simp

end FileRefState

/-! ## Counters that count what was applied -/

/-- The part of the counters that a tenant's applied events of a file make. -/
def fileShare (payload : ℕ → Option FileRefEvent) (rows : List EventRow) (applied : List ℕ) (tenantId fileId : String) :
    ℤ × ℤ :=
  sumWhere (storageDelta payload) rows fun r => (r.id ∈ applied ∧ r.tenantId = tenantId) ∧ r.aggregateId = fileId

/-- The counters are the sums of what was applied, and a tenant with a share has a row. -/
structure Counted (payload : ℕ → Option FileRefEvent) (rows : List EventRow) (applied : List ℕ)
    (usage : StorageUsage) : Prop where
  total : ∀ tenantId, (usage tenantId).getD 0 =
    sumWhere (storageDelta payload) rows fun r => r.id ∈ applied ∧ r.tenantId = tenantId
  present : ∀ tenantId fileId, fileShare payload rows applied tenantId fileId ≠ 0 → (usage tenantId).isSome

section
variable {payload : ℕ → Option FileRefEvent} {rows : List EventRow} {applied : List ℕ} {usage : StorageUsage}
  {r : EventRow} {tenantId source destination t : String} {inserted increment share : ℤ × ℤ} {event : FileRefEvent}

theorem storageDelta_eq (h : payload r.id = some event) :
    storageDelta payload r = (fileRefStorageDelta event).getD 0 := by
  rw [storageDelta, h, Option.bind_some]

/-- What the events of rows move the counters by. -/
theorem sum_storageDelta : (rows.map (storageDelta payload)).sum =
    ((rows.filterMap fun r => payload r.id).map fun event => (fileRefStorageDelta event).getD 0).sum := by
  induction rows with
  | nil => rfl
  | cons r rows ih =>
    rw [List.map_cons, List.sum_cons, ih, List.filterMap_cons]
    cases hp : payload r.id with
    | none => rw [storageDelta, hp, Option.bind_none, Option.getD_none, zero_add]
    | some event => rw [List.map_cons, List.sum_cons, storageDelta_eq hp]

/-- An upsert adds the increment, to the row or to none where it inserts the increment. -/
theorem incrementCounter_getD (h : (usage tenantId).isSome ∨ inserted = increment) :
    (incrementCounter usage tenantId inserted increment t).getD 0 =
      (usage t).getD 0 + if t = tenantId then increment else 0 := by
  by_cases ht : t = tenantId
  · subst ht
    rw [incrementCounter, Function.update_self, if_pos rfl, Option.getD_some]
    cases hu : usage t with
    | some counter => rfl
    | none =>
      rw [hu] at h
      rw [h.resolve_left (by simp), Option.getD_none, zero_add]
  · rw [incrementCounter, Function.update_of_ne ht, if_neg ht, add_zero]

theorem incrementCounter_self : (incrementCounter usage tenantId inserted increment tenantId).isSome := by
  rw [incrementCounter, Function.update_self]
  rfl

theorem incrementCounter_isSome (h : (usage t).isSome) :
    (incrementCounter usage tenantId inserted increment t).isSome := by
  by_cases ht : t = tenantId
  · subst ht
    exact incrementCounter_self
  · rwa [incrementCounter, Function.update_of_ne ht]

/-- The handler of an event adds its delta, where a delete finds a row. -/
theorem applyStorageEvent_spec (usage : StorageUsage) (tenantId : String) (event : FileRefEvent)
    (h : ∀ n, event = .deleted n → (usage tenantId).isSome) :
    (∀ t, (applyStorageEvent usage tenantId event t).getD 0 =
      (usage t).getD 0 + if t = tenantId then (fileRefStorageDelta event).getD 0 else 0) ∧
    (∀ t, (usage t).isSome → (applyStorageEvent usage tenantId event t).isSome) ∧
    ((fileRefStorageDelta event).getD 0 ≠ 0 → (applyStorageEvent usage tenantId event tenantId).isSome) := by
  cases event with
  | created size | restored previousSize =>
    exact ⟨fun t => incrementCounter_getD (.inr rfl), fun t => incrementCounter_isSome, fun _ => incrementCounter_self⟩
  | deleted previousSize =>
    exact ⟨fun t => incrementCounter_getD (.inl (h _ rfl)), fun t => incrementCounter_isSome,
      fun _ => incrementCounter_self⟩
  | forgotten =>
    refine ⟨fun t => ?_, fun t ht => ht, fun hne => absurd rfl hne⟩
    simp [applyStorageEvent, fileRefStorageDelta]

/-- The counters after one more event, where they have changed by its delta. -/
theorem Counted.add {usage' : StorageUsage} (h : Counted payload rows applied usage) (hnodup : (rows.map (·.id)).Nodup)
    (hr : r ∈ rows) (hn : r.id ∉ applied)
    (hget : ∀ t, (usage' t).getD 0 = (usage t).getD 0 + if t = r.tenantId then storageDelta payload r else 0)
    (hkept : ∀ t, (usage t).isSome → (usage' t).isSome)
    (hsome : storageDelta payload r ≠ 0 → (usage' r.tenantId).isSome) :
    Counted payload rows (applied ++ [r.id]) usage' := by
  have hmem : ∀ x : EventRow, x.id ∈ applied ++ [r.id] ↔ x.id ∈ applied ∨ x.id = r.id := fun x => by simp
  have hself : ∀ x ∈ rows, x.id = r.id → x = r := fun x hx he => List.inj_on_of_nodup_map hnodup hx hr he
  -- a condition that the event does not meet selects what it did before
  have hsame : ∀ (p : EventRow → Prop) [DecidablePred p], ¬ p r →
      sumWhere (storageDelta payload) rows (fun x => x.id ∈ applied ++ [r.id] ∧ p x) =
        sumWhere (storageDelta payload) rows fun x => x.id ∈ applied ∧ p x := by
    intro p _ hpr
    refine sumWhere_congr fun x hx => ?_
    rw [hmem]
    refine and_congr_left fun hpx => or_iff_left fun he => hpr ?_
    rwa [← hself x hx he]
  -- one that it meets selects it too
  have hone : ∀ (p : EventRow → Prop) [DecidablePred p], p r →
      sumWhere (storageDelta payload) rows (fun x => x.id ∈ applied ++ [r.id] ∧ p x) =
        sumWhere (storageDelta payload) rows (fun x => x.id ∈ applied ∧ p x) + storageDelta payload r := by
    intro p _ hpr
    refine sumWhere_insert hnodup hr (fun hx => hn hx.1) fun x hx => ?_
    rw [hmem, or_and_right]
    refine or_congr_right (and_iff_left_of_imp fun he => ?_)
    rwa [hself x hx he]
  refine ⟨fun t => ?_, fun t fileId hne => ?_⟩
  · rw [hget, h.total]
    by_cases ht : t = r.tenantId
    · rw [if_pos ht, hone (fun x => x.tenantId = t) ht.symm]
    · rw [if_neg ht, add_zero, hsame (fun x => x.tenantId = t) fun he => ht he.symm]
  · simp only [fileShare, and_assoc] at hne
    by_cases ht : r.tenantId = t ∧ r.aggregateId = fileId
    · rw [hone (fun x => x.tenantId = t ∧ x.aggregateId = fileId) ht] at hne
      by_cases hz : storageDelta payload r = 0
      · -- the event changes nothing, so the share was there before
        rw [hz, add_zero] at hne
        exact hkept t (h.present t fileId (by simpa only [fileShare, and_assoc] using hne))
      · exact ht.1 ▸ hsome hz
    · rw [hsame (fun x => x.tenantId = t ∧ x.aggregateId = fileId) ht] at hne
      exact hkept t (h.present t fileId (by simpa only [fileShare, and_assoc] using hne))

/-- The counters after an event. -/
def applyRow (payload : ℕ → Option FileRefEvent) (usage : StorageUsage) (r : EventRow) : StorageUsage :=
  match payload r.id with
  | some event => applyStorageEvent usage r.tenantId event
  | none => usage

/-- One more event is applied, and a delete after the event that has made the file live. -/
theorem Counted.applyRow (h : Counted payload rows applied usage) (hnodup : (rows.map (·.id)).Nodup) (hr : r ∈ rows)
    (hn : r.id ∉ applied)
    (hdeleted : ∀ n, payload r.id = some (.deleted n) →
      fileShare payload rows applied r.tenantId r.aggregateId ≠ 0) :
    Counted payload rows (applied ++ [r.id]) (applyRow payload usage r) := by
  unfold Kumiko.applyRow
  cases hp : payload r.id with
  | none =>
    have hdelta : storageDelta payload r = 0 := by rw [storageDelta, hp, Option.bind_none, Option.getD_none]
    exact h.add hnodup hr hn (fun t => by rw [hdelta, ite_self, add_zero]) (fun _ ht => ht) fun hne => absurd hdelta hne
  | some event =>
    obtain ⟨hget, hkept, hsome⟩ := applyStorageEvent_spec usage r.tenantId event
      fun n he => h.present _ _ (hdeleted n (he ▸ hp))
    rw [← storageDelta_eq hp] at hsome
    exact h.add hnodup hr hn (fun t => by rw [hget, storageDelta_eq hp]) hkept hsome

/-- What the move of a share adds up to. -/
theorem moveShare_spec (destination : String) (h : share ≠ 0 → (usage source).isSome) :
    (∀ t, (moveShare usage source destination share t).getD 0 + (if t = source then share else 0) =
      (usage t).getD 0 + if t = destination then share else 0) ∧
    (∀ t, (usage t).isSome → (moveShare usage source destination share t).isSome) ∧
    (share ≠ 0 → (moveShare usage source destination share destination).isSome) := by
  unfold moveShare
  by_cases hz : share = 0
  · subst hz
    simp
  · rw [if_neg hz]
    refine ⟨fun t => ?_, fun t ht => incrementCounter_isSome (incrementCounter_isSome ht),
      fun _ => incrementCounter_self⟩
    rw [incrementCounter_getD (.inr rfl), incrementCounter_getD (.inl (h hz))]
    by_cases hs : t = source
    · rw [if_pos hs, if_pos hs, add_right_comm, add_assoc ((usage t).getD 0), neg_add_cancel, add_zero]
    · rw [if_neg hs, if_neg hs, add_zero, add_zero]

variable {o : OpenTransfer}

/-- A sum over the rows of a tenant, after some rows of the source have gone to the destination. -/
theorem sum_moved (payload : ℕ → Option FileRefEvent) (applied : List ℕ)
    (htenant : ∀ r ∈ rows, r.id ∈ o.ids → r.tenantId = o.source) (t : String)
    (q : String → Prop) [DecidablePred q] :
    sumWhere (storageDelta payload) (rows.map o.moveRow)
        (fun r => (r.id ∈ applied ∧ r.tenantId = t) ∧ q r.aggregateId) +
      (if t = o.source then sumWhere (storageDelta payload) rows
        (fun r => (r.id ∈ applied ∧ r.id ∈ o.ids) ∧ q r.aggregateId) else 0) =
    sumWhere (storageDelta payload) rows (fun r => (r.id ∈ applied ∧ r.tenantId = t) ∧ q r.aggregateId) +
      if t = o.destination then sumWhere (storageDelta payload) rows
        (fun r => (r.id ∈ applied ∧ r.id ∈ o.ids) ∧ q r.aggregateId) else 0 := by
  have hif : ∀ s : String, (if t = s then sumWhere (storageDelta payload) rows
        (fun r => (r.id ∈ applied ∧ r.id ∈ o.ids) ∧ q r.aggregateId) else 0) =
      (rows.map fun r => if t = s ∧ (r.id ∈ applied ∧ r.id ∈ o.ids) ∧ q r.aggregateId then
        storageDelta payload r else 0).sum := by
    intro s
    by_cases hs : t = s <;> simp [hs, sumWhere]
  rw [hif, hif, sumWhere, sumWhere, List.map_map, ← List.sum_map_add, ← List.sum_map_add]
  refine congrArg _ (List.map_congr_left fun r hr => ?_)
  have hdelta : storageDelta payload (o.moveRow r) = storageDelta payload r := by
    rw [storageDelta, EventTable.moveRow_id, storageDelta]
  have hagg : (o.moveRow r).aggregateId = r.aggregateId := by
    unfold OpenTransfer.moveRow
    split <;> rfl
  simp only [Function.comp_apply, hdelta, hagg, EventTable.moveRow_id]
  by_cases hid : r.id ∈ o.ids
  · have hnew : (o.moveRow r).tenantId = o.destination := by rw [OpenTransfer.moveRow, if_pos hid]
    rw [hnew, htenant r hr hid]
    simp only [hid, and_true, eq_comm (b := t), and_assoc, and_left_comm (a := t = _)]
    exact add_comm _ _
  · rw [EventTable.moveRow_of_not_mem hid]
    simp [hid]

/-- The applied share of rows moves with them. -/
theorem Counted.move (h : Counted payload rows applied usage)
    (htenant : ∀ r ∈ rows, r.id ∈ o.ids → r.tenantId = o.source)
    (hshare : sumWhere (storageDelta payload) rows (fun r => r.id ∈ applied ∧ r.id ∈ o.ids) = share)
    (hsource : share ≠ 0 → (usage o.source).isSome)
    (hzero : share = 0 → ∀ fileId, sumWhere (storageDelta payload) rows
      (fun r => (r.id ∈ applied ∧ r.id ∈ o.ids) ∧ r.aggregateId = fileId) = 0) :
    Counted payload (rows.map o.moveRow) applied (moveShare usage o.source o.destination share) := by
  obtain ⟨hget, hkept, hdest⟩ := moveShare_spec o.destination hsource
  refine ⟨fun t => ?_, fun t fileId hne => ?_⟩
  · have hsum := sum_moved payload applied htenant t fun _ => True
    simp only [and_true] at hsum
    rw [hshare, ← h.total, ← hget] at hsum
    exact (add_right_cancel hsum).symm
  · by_cases hz : share = 0
    · -- no file has a share that moves
      have hsum := sum_moved payload applied htenant t (· = fileId)
      rw [hzero hz, ite_self, ite_self, add_zero, add_zero] at hsum
      exact hkept t (h.present t fileId (by rwa [fileShare, ← hsum]))
    · by_cases hs : t = o.source
      · exact hkept t (hs ▸ hsource hz)
      · by_cases hd : t = o.destination
        · exact hd ▸ hdest hz
        · have hsum := sum_moved payload applied htenant t (· = fileId)
          rw [if_neg hs, if_neg hd, add_zero, add_zero] at hsum
          exact hkept t (h.present t fileId (by rwa [fileShare, ← hsum]))

end

end Kumiko
