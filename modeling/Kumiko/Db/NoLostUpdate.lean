import Kumiko.Db.PreviousRow

/-!
# No lost update

A call that passes a version or a precondition and goes through had that of the row its event replaced. The
fields a write does not name are not in its statement, except that an update with a new owner writes the
personal fields again from the row it read, which with a precondition may be older (`not_no_lost_update`,
`no_lost_update_of_run`).
-/

namespace Kumiko

open Transition History

variable {J : Type*} {n : ℕ}

/-- The columns that say when and by whom a row was written, which every write sets. -/
def bookkeeping : List String := ["version", "modifiedAt", "modifiedById", "isDeleted", "deletedAt", "deletedById"]

/-- An update that passes a version that was there at its call. -/
def EntityEvent.PassedReadVersion (e : EntityEvent J) : Prop :=
  e.call.verb = .update ∧ e.call.skipOptimisticLock = false ∧ ∃ v ∈ e.call.version, v ≤ e.seen

/-- An update or a delete with a precondition. -/
def VerbCall.Expects (c : VerbCall J) : Prop := (c.verb = .update ∨ c.verb = .delete) ∧ c.expect.isSome

instance (c : VerbCall J) : Decidable c.Expects := inferInstanceAs (Decidable (_ ∧ _))

namespace EntityVerbs

variable (ev : EntityVerbs J) (home : String)

/-- The values an update writes again for a new owner. Reference: `ownerTransitionRekeys`. -/
def rekeyed (c : VerbCall J) (previous changes : EntityRow J) : EntityRow J :=
  personalFieldsRekeyedOnOwnerTransition ev.entity previous (previous.overlay changes)
    (ev.submittedChanges c.skipUnchanged previous changes)

/-- Where an update with a precondition and without the lock reads the version, and goes on, the values it is to
write again are those of the row. -/
def RekeysCurrent (s : AggregateTable J n) (k : Fin n) (o : OpenVerb J) : Prop :=
  match o.phase with
  | .version _ previous changes => o.call.verb = .update → o.call.expect.isSome →
      (ev.currentVersion s k o.call).isSome → ¬ o.PassesReadVersion →
      ∀ name value, ev.rekeyed o.call previous changes name = some value →
        ∀ row ∈ s.visibleRow k, row name = some value
  | _ => True

/-- Every call is on one stream, and preconditions do not cover for values that are old. -/
def RowsRekeyed (s : AggregateTable J n) : AggregateAct J n → Prop
  | .call _ c => ev.streamTenantFor c = home
  | .run k _ => ∀ o ∈ (s.clients k).calls.head?, ev.RekeysCurrent s k o
  | _ => True

/-- What an event promises of the row it replaces. -/
structure KeepsUpdates (before : List (EntityEvent J)) (e : EntityEvent J) : Prop where
  /-- The row was at the version passed. -/
  version : e.call.verb = .update → e.call.skipOptimisticLock = false → e.call.version = some before.length
  /-- It met the precondition. -/
  expect : (e.call.verb = .update ∨ e.call.verb = .delete) → ∀ p ∈ e.call.expect,
    ∃ row, ev.rowAfter before = some row ∧ p row = true
  /-- A field that is not named keeps its value. -/
  keeps : e.PassedReadVersion ∨ e.call.Expects → ∀ row row', ev.rowAfter before = some row →
    ev.applied (some row) e = some row' → ∀ name, e.patch name = none → name ∉ bookkeeping → row' name = row name

/-- A stream whose versions are numbered from one and whose events keep the updates before them. -/
def NoLostUpdate (es : List (EntityEvent J)) : Prop :=
  Along (fun before e => e.version = before.length + 1 ∧ ev.KeepsUpdates before e) es

variable {ev home} {s : AggregateTable J n} {k : Fin n} {o : OpenVerb J} {row row' : EntityRow J} {name : String}

/-! ## What a write sets -/

theorem ofColumns_of_not_mem {columns : List (String × FieldValue J)} (h : name ∉ columns.map Prod.fst) :
    EntityRow.ofColumns columns name = none := by
  unfold EntityRow.ofColumns
  exact List.lookup_eq_none_iff.2 fun column hcolumn => by
    simp only [bne_iff_ne, ne_eq]
    exact fun heq => h (List.mem_map.2 ⟨column, hcolumn, heq.symm⟩)

theorem overlay_of_none {changes : EntityRow J} (h : changes name = none) : row.overlay changes name = row name := by
  rw [EntityRow.overlay, h, Option.none_or]

/-- A write of a row that is there leaves alone what neither the patch nor the rekey names. -/
theorem applied_keeps {e : EntityEvent J} (hverb : ∀ data, e.payload ≠ .created data)
    (hchanges : ∀ changes previous, e.payload = .updated changes previous →
      ev.columns changes name = none ∨ ev.columns changes name = row name)
    (hname : name ∉ bookkeeping) (h : ev.applied (some row) e = some row') : row' name = row name := by
  have hmodified : ev.modified e name = none := ofColumns_of_not_mem fun hm => hname (by
    simp only [List.map_cons, List.map_nil, List.mem_cons, List.not_mem_nil, or_false] at hm
    rcases hm with rfl | rfl | rfl <;> decide)
  have hset : ∀ columns : EntityRow J, columns name = none ∨ columns name = row name →
      row.overlay (columns.overlay (ev.modified e)) name = row name := fun columns hcolumns => by
    rw [EntityRow.overlay, overlay_of_none hmodified]
    rcases hcolumns with hnone | hsame
    · rw [hnone, Option.none_or]
    · rw [hsame]
      exact Option.or_self
  unfold applied applyEntityEvent at h
  cases hpayload : e.payload with
  | created data => exact absurd hpayload (hverb data)
  | updated changes previous =>
    rw [hpayload] at h
    cases h
    exact hset _ (hchanges changes previous hpayload)
  | deleted previous =>
    rw [hpayload] at h
    dsimp only at h
    split at h
    · cases h
      refine hset _ (.inl (ofColumns_of_not_mem fun hm => hname ?_))
      simp only [List.map_cons, List.map_nil, List.mem_cons, List.not_mem_nil, or_false] at hm
      rcases hm with rfl | rfl | rfl <;> decide
    · cases h
  | restored previous =>
    rw [hpayload] at h
    dsimp only at h
    split at h
    · cases h
      refine hset _ (.inl (ofColumns_of_not_mem fun hm => hname ?_))
      simp only [List.map_cons, List.map_nil, List.mem_cons, List.not_mem_nil, or_false] at hm
      rcases hm with rfl | rfl | rfl <;> decide
    · cases h
      rfl
  | forgotten previous =>
    rw [hpayload] at h
    cases h
  | domainEvent =>
    rw [hpayload] at h
    cases h
    rfl

/-- Of a field the changes do not name, an update writes the value it rekeys or none. -/
theorem persistedChanges_of_not_named {c : VerbCall J} {previous changes : EntityRow J} (h : changes name = none) :
    ev.persistedChanges c previous changes name = ev.rekeyed c previous changes name := by
  have hsubmitted : ev.submittedChanges c.skipUnchanged previous changes name = none := by
    simp [EntityExecutor.submittedChanges, h]
  unfold persistedChanges EntityExecutor.changesToPersist
  rw [EntityRow.overlay, hsubmitted, Option.or_none]
  rfl

/-! ## What the version read has checked -/

theorem version_of_currentVersion {c : VerbCall J} {current : ℕ} (h : ev.currentVersion s k c = some current)
    (hverb : c.verb = .update) (hlock : c.skipOptimisticLock = false) : c.version = some current := by
  have hcurrent := currentVersion_eq h
  unfold currentVersion at h
  dsimp only at h
  split at h
  · cases h
  · split at h
    · cases h
    · next hmatch =>
      by_contra hne
      exact hmatch ⟨hverb, hlock, hcurrent ▸ hne⟩

theorem expect_of_currentVersion {c : VerbCall J} {current : ℕ} (h : ev.currentVersion s k c = some current)
    (hverb : c.verb = .update ∨ c.verb = .delete) {p : EntityRow J → Bool} (hp : p ∈ c.expect) :
    ∃ row, s.visibleRow k = some row ∧ p row = true := by
  unfold currentVersion at h
  dsimp only at h
  split at h
  · cases h
  · next hmet =>
    have hmet : (s.visibleRow k).any (fun row => c.db.selects row && p row) = true := by
      by_contra hnot
      refine hmet ⟨hverb, ?_⟩
      rw [show c.expect = some p from hp]
      simpa using hnot
    obtain ⟨row, hrow, hsat⟩ := Option.any_eq_true .. |>.1 hmet
    exact ⟨row, hrow, (Bool.and_eq_true .. ▸ hsat).2⟩

/-- Where an update reads the version, the values it is to write again are those of the row. -/
theorem rekeyed_current {checked : Option (EntityRow J)} {previous changes : EntityRow J} {value : FieldValue J}
    (hphase : o.phase = .version checked previous changes) (hu : ev.RekeysCurrent s k o)
    (hverb : o.call.verb = .update) (hcovered : o.PassesReadVersion ∨ o.call.expect.isSome)
    (hrows : ev.RowsSeen (s.visibleEvents k) o.call o.seen checked previous)
    (hrow : s.visibleRow k = ev.rowAfter (s.visibleEvents k))
    (hversion : ev.currentVersion s k o.call = some (s.visibleEvents k).length)
    (hvalue : ev.rekeyed o.call previous changes name = some value) (hnow : ev.rowAfter (s.visibleEvents k) = some row) :
    row name = some value := by
  by_cases hp : o.PassesReadVersion
  · have hprevious := hrows.previousSince.eq_of_newest (newest_of_passesReadVersion hp hversion)
    obtain rfl : row = previous := Option.some.inj (hnow.symm.trans hprevious)
    exact (rekeyed_eq hvalue).2.1
  · unfold RekeysCurrent at hu
    rw [hphase] at hu
    exact hu hverb (hcovered.resolve_left hp) (by rw [hversion]; rfl) hp name value hvalue row (hrow.trans hnow)

theorem settles_keepsUpdates (ev : EntityVerbs J) (home : String) :
    ev.Settles home ev.KeepsUpdates (ev.RowsRekeyed home (n := n)) where
  home _ _ _ ha := ha
  create c seen data now hv :=
    ⟨fun hu => absurd (hv.symm.trans hu) (by decide),
      fun hu => by rcases hu with hu | hu <;> exact absurd (hv.symm.trans hu) (by decide),
      fun _ row _ hrow => by cases hrow⟩
  version s k now o rest checked previous changes ha hc hphase hcreate _ hrows hrow hversion now' := by
    have hu : ev.RekeysCurrent s k o := ha o (by rw [hc]; rfl)
    refine ⟨fun hverb hlock => version_of_currentVersion hversion hverb hlock, fun hverb p hp => ?_,
      fun hcovered row row' hnow happly name hpatch hname => ?_⟩
    · obtain ⟨row, hvisible, hsat⟩ := expect_of_currentVersion hversion hverb hp
      exact ⟨row, hrow.symm.trans hvisible, hsat⟩
    · refine applied_keeps (fun data hdata => ?_) (fun persisted before hpayload => ?_) hname happly
      · cases hv : o.call.verb <;> simp [eventOf, payloadOf, hv] at hdata
        exact hcreate hv
      · have hverb : o.call.verb = .update := by
          cases hv : o.call.verb <;> simp [eventOf, payloadOf, hv] at hpayload
          rfl
        have hpersisted : persisted = ev.persistedChanges o.call previous changes := by
          simp only [eventOf, payloadOf, hverb, EntityPayload.updated.injEq] at hpayload
          exact hpayload.1.symm
        have hwritten : persisted name = ev.rekeyed o.call previous changes name := by
          rw [hpersisted]
          exact persistedChanges_of_not_named hpatch
        cases hvalue : ev.rekeyed o.call previous changes name with
        | none => exact .inl (by simp [EntityExecutor.columns, hwritten, hvalue])
        | some value =>
          have hsame := rekeyed_current hphase hu hverb (hcovered.imp id And.right)
            (hrows ⟨hcreate, by simp [hverb]⟩) hrow hversion hvalue hnow
          unfold EntityExecutor.columns
          split
          · exact .inr (by rw [hwritten, hvalue, hsame])
          · exact .inl rfl

/-- Where the values written again are the row's, no call that passes a version it has read, or a precondition,
loses an update; and the row each client sees is what the events it sees make of it, except between the
append of an event and its write. -/
theorem no_lost_update_of_run (ev : EntityVerbs J) (home : String) (s : AggregateTable J n)
    (hr : Run ev.step (ev.RowsRekeyed home) .initial s) :
    ev.NoLostUpdate s.events ∧ s.row = ev.rowAfter s.events ∧
      ∀ k, (∀ o ∈ (s.clients k).calls.head?, o.phase.Resting) →
        ev.NoLostUpdate (s.visibleEvents k) ∧ s.visibleRow k = ev.rowAfter (s.visibleEvents k) := by
  have h := verbsInv_of_run (settles_keepsUpdates ev home) hr
  have hrow := h.committed.row
  have hchain := h.committed.chain
  simp only [VerbTx.empty, List.append_nil, Option.getD_none] at hrow hchain
  refine ⟨hchain.mono fun _ _ he => he.2, hrow, fun k hk => ?_⟩
  have htx := (h.client k).stack.txOk hk
  exact ⟨htx.chain.mono fun _ _ he => he.2, htx.row⟩

/-! ## A ticket changes hands beside an update -/

/-- The ticket is given to `u2` if it is still with `u1`, whatever its version. -/
def ticketHandedOver : VerbCall Empty :=
  { ticketCall .update [("assigneeId", "u2")] with
    skipOptimisticLock := true
    expect := some fun row => row.value "assigneeId" = .text (.of "u1") }

/-- The lock keeps the ticket with `u1`. -/
theorem no_lost_update_of_run_ticketLocked : ∃ s : AggregateTable Empty 2,
    s.row.map (fun row => (row "assigneeId", row "note")) =
      some (some (.text (.of "u1")), some (.text (.of "locked"))) ∧ ticketVerbs.NoLostUpdate s.events := by
  let okb : AggregateTable Empty 2 → AggregateAct Empty 2 → Bool := fun s a =>
    match a with
    | .call _ c => ticketVerbs.streamTenantFor c = "t1"
    | .run k _ => (s.clients k).calls.head?.all fun o => o.call.expect.isNone
    | .begin _ | .commit _ | .rollback _ | .error _ | .archive _ | .unarchive _ => true
  have hok : ∀ s a, okb s a = true → ticketVerbs.RowsRekeyed "t1" s a := fun s a h => by
    cases a with
    | call k c =>
      have hhome : ticketVerbs.streamTenantFor c = "t1" := of_decide_eq_true h
      exact hhome
    | run k now =>
      intro o ho
      have hnone : o.call.expect.isNone = true := by
        simpa [okb, show (s.clients k).calls.head? = some o from ho] using h
      unfold RekeysCurrent
      split
      · intro _ hsome
        rw [Option.isNone_iff_eq_none.1 hnone] at hsome
        cases hsome
      · trivial
    | begin | commit | rollback | error | archive | unarchive => trivial
  obtain ⟨s, hr, hs⟩ := exists_run_of_execOk ticketVerbs.step okb .initial (ticketCreated ++ ticketLocked)
    (fun s => s.row.map (fun row => (row "assigneeId", row "note")) ==
      some (some (.text (.of "u1")), some (.text (.of "locked")))) hok (by decide +kernel) (by decide +kernel)
  exact ⟨s, beq_iff_eq.1 hs, (no_lost_update_of_run ticketVerbs "t1" s hr).1⟩

/-- The second client reads the ticket, the first one writes its note, and the hand-over writes the note it has
read under the key of `u2`. -/
theorem not_no_lost_update : ¬ ∀ s : AggregateTable Empty 2,
    Run ticketVerbs.step (ticketVerbs.OneStream "t1") .initial s → ticketVerbs.NoLostUpdate s.events := fun h => by
  obtain ⟨s, hr, hs⟩ := exists_run_of_execOk ticketVerbs.step (fun s a => decide (ticketVerbs.OneStream "t1" s a))
    .initial (ticketCreated ++ .call 1 ticketHandedOver :: .replicate 4 (.run 1 0) ++
      .call 0 { ticketCall .update [("note", "bye")] with version := some 1 } :: .replicate 8 (.run 0 0) ++
      .replicate 4 (.run 1 0))
    (fun s => match s.events with
      | [e₁, e₂, e₃] => decide e₃.call.Expects && (e₃.patch "note").isNone &&
          (ticketVerbs.rowAfter [e₁, e₂]).any fun row =>
            (ticketVerbs.applied (some row) e₃).any fun row' => row' "note" != row "note"
      | [] | [_] | [_, _] | _ :: _ :: _ :: _ :: _ => false)
    (fun _ _ => of_decide_eq_true) (by decide +kernel) (by decide +kernel)
  have hkeeps := h s hr
  split at hs
  · next e₁ e₂ e₃ hevents =>
    rw [hevents] at hkeeps
    simp only [Bool.and_eq_true, decide_eq_true_eq, Option.isNone_iff_eq_none, Option.any_eq_true] at hs
    obtain ⟨⟨hexpects, hpatch⟩, row, hrow, row', hrow', hother⟩ := hs
    have hsame := (hkeeps [e₁, e₂] e₃ [] rfl).2.keeps (.inr hexpects) row row' hrow hrow' "note" hpatch (by decide)
    rw [hsame] at hother
    simp at hother
  all_goals cases hs

end EntityVerbs

end Kumiko
