import Kumiko.Db.VerbRuns

/-!
# The previous row of an event

An `updated`, `deleted`, `restored` or `forgotten` event carries the row as its verb read it, and its guards
were evaluated on that row. The version the event follows is read later, and what another client commits in
between is missing from `previous` (`not_previous`, `previous_of_run`).
-/

namespace Kumiko

open Transition History

variable {J : Type*} {n : ℕ}

/-- An update that passes a version which was there at its call. -/
def OpenVerb.PassesReadVersion (o : OpenVerb J) : Prop :=
  o.call.verb = .update ∧ o.call.skipOptimisticLock = false ∧ ∃ v ∈ o.call.version, v ≤ o.seen

instance (o : OpenVerb J) : Decidable o.PassesReadVersion :=
  inferInstanceAs (Decidable (_ ∧ _ ∧ ∃ v ∈ _, _))

namespace EntityVerbs

variable (ev : EntityVerbs J) (home : String)

/-- Every call is on the stream of one tenant. -/
def OneStream (_ : AggregateTable J n) : AggregateAct J n → Prop
  | .call _ c => ev.streamTenantFor c = home
  | _ => True

instance (s : AggregateTable J n) (a : AggregateAct J n) : Decidable (ev.OneStream home s a) := by
  unfold OneStream
  split <;> infer_instance

/-- Where a verb reads the version its event is to follow, and goes on, the row is the one it has read. -/
def RowUnchanged (s : AggregateTable J n) (k : Fin n) (o : OpenVerb J) : Prop :=
  match o.phase with
  | .version checked previous _ => o.call.readsRow → (ev.currentVersion s k o.call).isSome → ¬ o.PassesReadVersion →
      s.visibleRow k = some previous ∧ (o.call.systemUser = true ∨ checked = some previous)
  | _ => True

/-- Every call is on one stream, and verbs find the row unchanged. -/
def RowRead (s : AggregateTable J n) : AggregateAct J n → Prop
  | .call _ c => ev.streamTenantFor c = home
  | .run k _ => ∀ o ∈ (s.clients k).calls.head?, ev.RowUnchanged s k o
  | _ => True

/-- The event carries the row its version replaces, and the guards accept that row. -/
structure CarriesRow (before : List (EntityEvent J)) (e : EntityEvent J) : Prop where
  row : ∀ previous, e.payload.previous = some previous → ev.rowAfter before = some previous
  allows : ∀ previous, e.payload.previous = some previous → ev.allows e.call previous e.patch = true
  mayRead : ∀ previous, e.payload.previous = some previous → e.call.mayRead (some previous) = true

/-- A stream whose versions are numbered from one, and whose events carry the rows they replace. -/
def PreviousRows (es : List (EntityEvent J)) : Prop :=
  Along (fun before e => e.version = before.length + 1 ∧ ev.CarriesRow before e) es

variable {ev home} {s : AggregateTable J n} {k : Fin n} {o : OpenVerb J}

theorem payload_previous {c : VerbCall J} {previous changes row : EntityRow J}
    (h : (ev.payloadOf c previous changes).previous = some row) : c.readsRow ∧ row = previous := by
  unfold payloadOf at h
  unfold VerbCall.readsRow
  cases hv : c.verb with
  | create | domainEvent => simp [hv, EntityPayload.previous] at h
  | update | delete | forget | restore => simpa [hv, EntityPayload.previous, eq_comm] using h

/-- A row that was there since the newest version is the row there is. -/
theorem SeenSince.eq_of_newest {l : List (EntityEvent J)} {seen : ℕ} {row : Option (EntityRow J)}
    (h : ev.SeenSince l seen row) (hseen : l.length ≤ seen) : ev.rowAfter l = row := by
  obtain ⟨m, hm, hle, hrow⟩ := h
  rwa [List.take_of_length_le (hseen.trans hm)] at hrow

/-- A version that was there at the call and is the newest now: nothing was committed since. -/
theorem newest_of_passesReadVersion (hp : o.PassesReadVersion) {v : ℕ}
    (h : ev.currentVersion s k o.call = some v) : v ≤ o.seen := by
  obtain ⟨hverb, hlock, passed, hpassed, hle⟩ := hp
  have hcurrent := currentVersion_eq h
  unfold currentVersion at h
  dsimp only at h
  split at h
  · cases h
  · split at h
    · cases h
    · next hmatch =>
      have heq : o.call.version = some v := by
        by_contra hne
        exact hmatch ⟨hverb, hlock, hcurrent ▸ hne⟩
      obtain rfl : v = passed := Option.some.inj (heq.symm.trans hpassed)
      exact hle

/-- Where a verb reads the version, it knows the row as the events leave it. -/
theorem rows_of_unchanged {checked : Option (EntityRow J)} {previous changes : EntityRow J}
    (hphase : o.phase = .version checked previous changes) (hu : ev.RowUnchanged s k o)
    (hreads : o.call.readsRow) (hrows : ev.RowsSeen (s.visibleEvents k) o.call o.seen checked previous)
    (hrow : s.visibleRow k = ev.rowAfter (s.visibleEvents k))
    (hversion : ev.currentVersion s k o.call = some (s.visibleEvents k).length) :
    ev.rowAfter (s.visibleEvents k) = some previous ∧ o.call.mayRead (some previous) = true := by
  by_cases hp : o.PassesReadVersion
  · have hseen := newest_of_passesReadVersion hp hversion
    have hprevious := hrows.previousSince.eq_of_newest hseen
    have hchecked := hrows.checkedSince.eq_of_newest hseen
    refine ⟨hprevious, ?_⟩
    rw [← hprevious, hchecked]
    exact hrows.mayRead
  · unfold RowUnchanged at hu
    rw [hphase] at hu
    obtain ⟨hnow, hread⟩ := hu hreads (by rw [hversion]; rfl) hp
    refine ⟨hrow.symm.trans hnow, ?_⟩
    rcases hread with hsystem | hchecked
    · simp [VerbCall.mayRead, hsystem]
    · exact hchecked ▸ hrows.mayRead

theorem settles_carriesRow (ev : EntityVerbs J) (home : String) :
    ev.Settles home ev.CarriesRow (ev.RowRead home (n := n)) where
  home _ _ _ ha := ha
  create c seen data now hv := by
    have hnone : (ev.eventOf c seen (fun _ => none) data 0 now).payload.previous = none := by
      simp [eventOf, payloadOf, hv, EntityPayload.previous]
    have hvacuous : ∀ row, (ev.eventOf c seen (fun _ => none) data 0 now).payload.previous ≠ some row := fun row h => by
      rw [hnone] at h
      cases h
    exact ⟨fun row h => (hvacuous row h).elim, fun row h => (hvacuous row h).elim,
      fun row h => (hvacuous row h).elim⟩
  version s k now o rest checked previous changes ha hc hphase _ hallows hrows hrow hversion now' := by
    have hu : ev.RowUnchanged s k o := ha o (by rw [hc]; rfl)
    refine ⟨fun row h => ?_, fun row h => ?_, fun row h => ?_⟩
    all_goals obtain ⟨hreads, rfl⟩ := payload_previous h
    · exact (rows_of_unchanged hphase hu hreads (hrows hreads) hrow hversion).1
    · exact hallows
    · exact (rows_of_unchanged hphase hu hreads (hrows hreads) hrow hversion).2

/-- Every event carries the row that its version replaces, and its guards accept that row; the table has the
row that the events make. -/
theorem previous_of_run (ev : EntityVerbs J) (home : String) (s : AggregateTable J n)
    (hr : Run ev.step (ev.RowRead home) .initial s) :
    ev.PreviousRows s.events ∧ s.row = ev.rowAfter s.events := by
  have h := (verbsInv_of_run (settles_carriesRow ev home) hr).committed
  have hrow := h.row
  have hchain := h.chain
  simp only [VerbTx.empty, List.append_nil, Option.getD_none] at hrow hchain
  exact ⟨hchain.mono fun _ _ he => he.2, hrow⟩

end EntityVerbs

/-! ## A ticket and two clients -/

/-- The verbs of a ticket, which is locked by its note. -/
def ticketVerbs : EntityVerbs Empty where
  toEntityExecutor := ticketExecutor
  aggregateId := "k1"
  softDelete := true
  systemStream := false
  isRecordLocked row := row.value "note" = .text (.of "locked")
  time _ := .null
  flag b := .number (if b then "1" else "0")
  isTrue value := value = .number "1"

/-- A call by a user whom nothing but the lock restrains. -/
def ticketCall (verb : ExecutorVerb) (payload : List (String × String)) : VerbCall Empty where
  verb := verb
  payload := .ofColumns (payload.map fun column => (column.1, .text (.of column.2)))
  userId := "u1"
  userTenantId := "t1"
  systemUser := false
  db := ⟨false, "t1"⟩
  streamTenantId := none
  preSave changes _ := some changes
  readable _ := true
  ownership _ _ := true
  fieldState _ _ := true
  lockBypassed := false
  version := none
  skipOptimisticLock := false
  skipUnchanged := false
  includeDeleted := false
  expect := none

/-- The first client creates the ticket. -/
def ticketCreated : List (AggregateAct Empty 2) :=
  .call 0 (ticketCall .create [("assigneeId", "u1"), ("note", "hi")]) :: .replicate 4 (.run 0 0)

/-- The first client locks the ticket, with the version it was created with. -/
def ticketLocked : List (AggregateAct Empty 2) :=
  .call 0 { ticketCall .update [("note", "locked")] with version := some 1 } :: .replicate 8 (.run 0 0)

namespace EntityVerbs

/-- The lock's event carries the ticket as it was created. -/
theorem previous_of_run_ticketLocked : ∃ s : AggregateTable Empty 2,
    s.events.map (fun e => (e.version, e.payload.previous.bind (· "note"))) =
      [(1, none), (2, some (.text (.of "hi")))] ∧
    ticketVerbs.PreviousRows s.events ∧ s.row = ticketVerbs.rowAfter s.events := by
  let okb : AggregateTable Empty 2 → AggregateAct Empty 2 → Bool := fun s a =>
    match a with
    | .call _ c => ticketVerbs.streamTenantFor c = "t1"
    | .run k _ => (s.clients k).calls.head?.all fun o => o.call.verb = .create || decide o.PassesReadVersion
    | _ => true
  have hok : ∀ s a, okb s a = true → ticketVerbs.RowRead "t1" s a := fun s a h => by
    cases a with
    | call k c =>
      have hhome : ticketVerbs.streamTenantFor c = "t1" := of_decide_eq_true h
      exact hhome
    | run k now =>
      intro o ho
      have h : (o.call.verb = .create || decide o.PassesReadVersion) = true := by
        simpa [okb, show (s.clients k).calls.head? = some o from ho] using h
      unfold RowUnchanged
      split
      · intro hreads _ hp
        rcases Bool.or_eq_true_iff.1 h with hcreate | hpasses
        · exact absurd (of_decide_eq_true hcreate) hreads.1
        · exact absurd (of_decide_eq_true hpasses) hp
      · trivial
    | begin | commit | rollback | error | archive | unarchive => trivial
  obtain ⟨s, hr, hs⟩ := exists_run_of_execOk ticketVerbs.step okb .initial (ticketCreated ++ ticketLocked)
    (fun s => s.events.map (fun e => (e.version, e.payload.previous.bind (· "note"))) ==
      [(1, none), (2, some (.text (.of "hi")))]) hok (by decide +kernel) (by decide +kernel)
  exact ⟨s, beq_iff_eq.1 hs, previous_of_run ticketVerbs "t1" s hr⟩

/-- The second client reads the ticket, the first one locks it, and the second one deletes it with the row it
has read. -/
theorem not_previous : ¬ ∀ s : AggregateTable Empty 2, Run ticketVerbs.step (ticketVerbs.OneStream "t1") .initial s →
    ticketVerbs.PreviousRows s.events := fun h => by
  obtain ⟨s, hr, hs⟩ := exists_run_of_execOk ticketVerbs.step (fun s a => decide (ticketVerbs.OneStream "t1" s a))
    .initial (ticketCreated ++ .call 1 (ticketCall .delete []) :: .replicate 4 (.run 1 0) ++ ticketLocked ++
      .replicate 4 (.run 1 0))
    (fun s => match s.events with
      | [e₁, e₂, e₃] => e₃.payload.previous.any fun previous =>
          (ticketVerbs.rowAfter [e₁, e₂]).all fun row => row "note" != previous "note"
      | [] | [_] | [_, _] | _ :: _ :: _ :: _ :: _ => false)
    (fun _ _ => of_decide_eq_true) (by decide +kernel) (by decide +kernel)
  have hrows := h s hr
  split at hs
  · next e₁ e₂ e₃ hevents =>
    rw [hevents] at hrows
    obtain ⟨previous, hprevious, hother⟩ := Option.any_eq_true .. |>.1 hs
    have hrow := (hrows [e₁, e₂] e₃ [] rfl).2.row previous hprevious
    rw [hrow] at hother
    simp at hother
  all_goals cases hs

end EntityVerbs

end Kumiko
