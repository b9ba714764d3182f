import Mathlib.Data.List.Induction
import Kumiko.Db.ExecutorVerbs

/-!
# Runs of the verbs on one stream

An append is held up by the version another transaction has inserted, so that one transaction at most has events
of the aggregate that are not committed, and the row it writes is the row its own events give. `VerbsInv` says
so, and with it that a relation `Good` holds between each event and the stream before it, which `Settles` asks
for where a verb reads the version.
-/

namespace Kumiko

open Transition History

variable {J : Type*} {n : ℕ}

/-- The verbs that read the row. -/
def VerbCall.readsRow (c : VerbCall J) : Prop := c.verb ≠ .create ∧ c.verb ≠ .domainEvent

/-- The verb is not between its append and the write of its row. -/
def VerbPhase.Resting : VerbPhase J → Prop
  | .project _ => False
  | _ => True

namespace EntityVerbs

variable (ev : EntityVerbs J) (home : String) (Good : List (EntityEvent J) → EntityEvent J → Prop)

/-- A stream of the tenant, in the order of its versions, with `Good` along it. -/
def Chain (es : List (EntityEvent J)) : Prop :=
  Along (fun before e => e.tenantId = home ∧ e.version = before.length + 1 ∧ Good before e) es

/-- The row is one the stream has had since the call. -/
def SeenSince (l : List (EntityEvent J)) (seen : ℕ) (row : Option (EntityRow J)) : Prop :=
  ∃ m, seen ≤ m ∧ m ≤ l.length ∧ ev.rowAfter (l.take m) = row

/-- What a verb that reads the row knows of it. -/
structure RowsSeen (l : List (EntityEvent J)) (c : VerbCall J) (seen : ℕ) (checked : Option (EntityRow J))
    (previous : EntityRow J) : Prop where
  checkedSince : ev.SeenSince l seen checked
  mayRead : c.mayRead checked = true
  previousSince : ev.SeenSince l seen (some previous)

/-- What a verb knows at its next statement, with the events it sees. -/
def PhaseOk (l : List (EntityEvent J)) (o : OpenVerb J) : VerbPhase J → Prop
  | .readable loaded => o.call.readsRow ∧ ∀ previous, loaded = some previous → ev.SeenSince l o.seen loaded
  | .load checked => o.call.readsRow ∧
      (o.call.verb ≠ .forget → ev.SeenSince l o.seen checked ∧ o.call.mayRead checked = true)
  | .guard checked previous => o.call.verb ≠ .domainEvent ∧
      (o.call.verb = .create → previous = fun _ => none) ∧
      (o.call.readsRow → ev.RowsSeen l o.call o.seen checked previous)
  | .archived checked previous changes | .version checked previous changes => o.call.verb ≠ .create ∧
      ev.allows o.call previous changes = true ∧ (o.call.readsRow →
      ev.RowsSeen l o.call o.seen checked previous)
  | .append previous changes expectedVersion => expectedVersion ≤ l.length ∧
      ∀ now, Good (l.take expectedVersion) (ev.eventOf o.call o.seen previous changes expectedVersion now)
  | .project _ | .projections => True

/-- A transaction's events follow the committed ones, and its row is theirs. -/
structure TxOk (es : List (EntityEvent J)) (row : Option (EntityRow J)) (w : VerbTx J) : Prop where
  chain : Chain home Good (es ++ w.events)
  row : w.row.getD row = ev.rowAfter (es ++ w.events)
  untouched : w.events = [] → w.row = none

/-- The transaction of a verb. Where the verb has appended its event and not written the row, the row is that
of the events before. -/
def TopOk (es : List (EntityEvent J)) (row : Option (EntityRow J)) (o : OpenVerb J) (w : VerbTx J) : Prop :=
  match o.phase with
  | .project e => Chain home Good (es ++ w.events) ∧
      ∃ before, w.events = before ++ [e] ∧ w.row.getD row = ev.rowAfter (es ++ before)
  | phase => ev.TxOk home Good es row w ∧ ev.PhaseOk Good (es ++ w.events) o phase

/-- The verbs of a client, the innermost first, each on what the one inside it found. -/
def StackOk (es : List (EntityEvent J)) (row : Option (EntityRow J)) : List (OpenVerb J) → VerbTx J → Prop
  | [], w => ev.TxOk home Good es row w
  | o :: rest, w => ev.TopOk home Good es row o w ∧ ev.streamTenantFor o.call = home ∧
      o.seen ≤ (es ++ w.events).length ∧ (o.own = true → rest = [] ∧ o.saved = .empty) ∧
      (∀ p ∈ rest.head?, p.phase.Resting) ∧ o.saved.events <+: w.events ∧ StackOk es row rest o.saved

structure ClientOk (es : List (EntityEvent J)) (row : Option (EntityRow J)) (cl : VerbClient J) : Prop where
  stack : ev.StackOk home Good es row cl.calls cl.written
  idle : cl.inTx = false → cl.calls = [] ∧ cl.written = .empty

/-- What every run on one stream maintains. -/
structure VerbsInv (s : AggregateTable J n) : Prop where
  committed : ev.TxOk home Good s.events s.row .empty
  client : ∀ k, ev.ClientOk home Good s.events s.row (s.clients k)
  /-- One transaction at most has events that are not committed. -/
  alone : ∀ k k', k ≠ k' → (s.clients k).written.events = [] ∨ (s.clients k').written.events = []

/-- The run's steps are on the stream of one tenant, and give `Good` of the events to come. -/
structure Settles (ok : AggregateTable J n → AggregateAct J n → Prop) : Prop where
  home : ∀ s k c, ok s (.call k c) → ev.streamTenantFor c = home
  create : ∀ c seen data now, c.verb = .create → Good [] (ev.eventOf c seen (fun _ => none) data 0 now)
  /-- The version is read with the row as the events leave it. -/
  version : ∀ s k now o rest checked previous changes, ok s (.run k now) → (s.clients k).calls = o :: rest →
    o.phase = .version checked previous changes → o.call.verb ≠ .create →
    ev.allows o.call previous changes = true →
    (o.call.readsRow → ev.RowsSeen (s.visibleEvents k) o.call o.seen checked previous) →
    s.visibleRow k = ev.rowAfter (s.visibleEvents k) →
    ev.currentVersion s k o.call = some (s.visibleEvents k).length →
    ∀ now', Good (s.visibleEvents k)
      (ev.eventOf o.call o.seen previous changes (s.visibleEvents k).length now')

variable {ev home Good} {s s' : AggregateTable J n} {k : Fin n} {o : OpenVerb J} {rest : List (OpenVerb J)}
  {es es' l l' : List (EntityEvent J)} {row row' : Option (EntityRow J)} {w w' : VerbTx J} {phase : VerbPhase J}

/-! ## The stream -/

theorem rowAfter_concat (es : List (EntityEvent J)) (e : EntityEvent J) :
    ev.rowAfter (es ++ [e]) = ev.applied (ev.rowAfter es) e := List.foldl_concat ..

/-- The newest version of a stream is its length. -/
theorem maxVersion_of_chain (h : Chain home Good es) : maxVersion es home = es.length := by
  induction es using List.reverseRecOn with
  | nil => rfl
  | append_singleton es e ih =>
    obtain ⟨hes, htenant, hversion, -⟩ := along_concat.1 h
    have hmax : maxVersion (es ++ [e]) home = max (maxVersion es home) e.version := by
      simp [maxVersion, htenant]
    rw [hmax, ih hes, hversion, List.length_append]
    exact max_eq_right (Nat.le_succ _)

/-- A version up to the newest is there. -/
theorem exists_version (h : Chain home Good es) {v : ℕ} (hpos : 0 < v) (hle : v ≤ es.length) :
    ∃ e ∈ es, e.tenantId = home ∧ e.version = v := by
  have hlt : v - 1 < es.length := by omega
  have hsplit : es = es.take (v - 1) ++ es[v - 1] :: es.drop (v - 1 + 1) := by
    rw [List.getElem_cons_drop, List.take_append_drop]
  obtain ⟨htenant, hversion, -⟩ := h _ _ _ hsplit
  refine ⟨es[v - 1], List.getElem_mem hlt, htenant, ?_⟩
  rw [hversion, List.length_take]
  omega

theorem SeenSince.extend {seen : ℕ} (h : ev.SeenSince l seen row) (hp : l <+: l') : ev.SeenSince l' seen row := by
  obtain ⟨m, hseen, hle, hrow⟩ := h
  obtain ⟨more, rfl⟩ := hp
  refine ⟨m, hseen, hle.trans (by simp), ?_⟩
  rw [List.take_append_of_le_length hle, hrow]

theorem seenSince_now {seen : ℕ} (hseen : seen ≤ l.length) (hrow : row = ev.rowAfter l) :
    ev.SeenSince l seen row := ⟨l.length, hseen, le_rfl, by rw [List.take_length, hrow]⟩

theorem RowsSeen.extend {c : VerbCall J} {seen : ℕ} {checked : Option (EntityRow J)} {previous : EntityRow J}
    (h : ev.RowsSeen l c seen checked previous) (hp : l <+: l') : ev.RowsSeen l' c seen checked previous :=
  ⟨h.checkedSince.extend hp, h.mayRead, h.previousSince.extend hp⟩

/-- What a verb knows stays so when the stream goes on. -/
theorem PhaseOk.extend (h : ev.PhaseOk Good l o phase) (hp : l <+: l') : ev.PhaseOk Good l' o phase := by
  cases phase with
  | readable loaded => exact ⟨h.1, fun previous he => (h.2 previous he).extend hp⟩
  | load checked => exact ⟨h.1, fun hv => ⟨(h.2 hv).1.extend hp, (h.2 hv).2⟩⟩
  | guard checked previous => exact ⟨h.1, h.2.1, fun hr => (h.2.2 hr).extend hp⟩
  | archived checked previous changes | version checked previous changes =>
    exact ⟨h.1, h.2.1, fun hr => (h.2.2 hr).extend hp⟩
  | append previous changes expectedVersion =>
    refine ⟨h.1.trans hp.length_le, fun now => ?_⟩
    obtain ⟨more, rfl⟩ := hp
    rw [List.take_append_of_le_length h.1]
    exact h.2 now
  | project | projections => trivial

/-! ## Savepoints -/

theorem topOk_of_resting (hr : o.phase.Resting) :
    ev.TopOk home Good es row o w ↔ ev.TxOk home Good es row w ∧ ev.PhaseOk Good (es ++ w.events) o o.phase := by
  unfold TopOk
  split
  · next he => exact absurd hr (by rw [he]; exact id)
  · exact Iff.rfl

/-- The transaction of a stack whose innermost verb is not at its write. -/
theorem StackOk.txOk {calls : List (OpenVerb J)} (h : ev.StackOk home Good es row calls w)
    (hr : ∀ p ∈ calls.head?, p.phase.Resting) : ev.TxOk home Good es row w := by
  cases calls with
  | nil => exact h
  | cons o rest => exact ((topOk_of_resting (hr o rfl)).1 h.1).1

/-- The verbs outside go on from what the innermost one wrote. -/
theorem StackOk.grow {calls : List (OpenVerb J)} (h : ev.StackOk home Good es row calls w)
    (hr : ∀ p ∈ calls.head?, p.phase.Resting) (hp : w.events <+: w'.events) (hw : ev.TxOk home Good es row w') :
    ev.StackOk home Good es row calls w' := by
  cases calls with
  | nil => exact hw
  | cons o rest =>
    obtain ⟨htop, hhome, hseen, hown, hrest, hsaved, hstack⟩ := h
    have hpre : es ++ w.events <+: es ++ w'.events := (List.prefix_append_right_inj es).2 hp
    obtain ⟨-, hphase⟩ := (topOk_of_resting (hr o rfl)).1 htop
    exact ⟨(topOk_of_resting (hr o rfl)).2 ⟨hw, hphase.extend hpre⟩, hhome, hseen.trans hpre.length_le, hown, hrest,
      hsaved.trans hp, hstack⟩

/-- A client that has written nothing goes on from what another one commits. -/
theorem StackOk.rebase {calls : List (OpenVerb J)} (h : ev.StackOk home Good es row calls w)
    (hnone : w.events = []) (hp : es <+: es') (hc : ev.TxOk home Good es' row' .empty) :
    ev.StackOk home Good es' row' calls w := by
  have htx : ∀ {w : VerbTx J}, w.events = [] → w.row = none → ev.TxOk home Good es' row' w := fun he hrow =>
    ⟨by rw [he]; exact hc.chain, by rw [he, hrow]; exact hc.row, fun _ => hrow⟩
  induction calls generalizing w with
  | nil => exact htx hnone (h.untouched hnone)
  | cons o rest ih =>
    obtain ⟨htop, hhome, hseen, hown, hrest, hsaved, hstack⟩ := h
    have hpre : es ++ w.events <+: es' ++ w.events := by simpa [hnone] using hp
    refine ⟨?_, hhome, hseen.trans hpre.length_le, hown, hrest, hsaved,
      ih hstack (List.prefix_nil.1 (hnone ▸ hsaved))⟩
    unfold TopOk at htop ⊢
    split at htop
    · obtain ⟨-, before, he, -⟩ := htop
      rw [hnone] at he
      exact absurd he (by simp)
    · exact ⟨htx hnone (htop.1.untouched hnone), htop.2.extend hpre⟩

/-! ## One client's step -/

/-- A step that changes one client only. -/
theorem VerbsInv.set (h : ev.VerbsInv home Good s) {cl : VerbClient J}
    (hcl : ev.ClientOk home Good s.events s.row cl)
    (halone : cl.written.events = [] ∨ ∀ k', k' ≠ k → (s.clients k').written.events = []) :
    ev.VerbsInv home Good (s.setClient k cl) := by
  refine ⟨h.committed, fun k' => ?_, fun k₁ k₂ hne => ?_⟩
  · rcases eq_or_ne k' k with rfl | hk
    · simpa [AggregateTable.setClient] using hcl
    · simpa [AggregateTable.setClient, Function.update_of_ne hk] using h.client k'
  · rcases eq_or_ne k₁ k with rfl | h₁
    · simp only [AggregateTable.setClient, Function.update_self, Function.update_of_ne hne.symm]
      exact halone.imp id fun hall => hall k₂ hne.symm
    · rcases eq_or_ne k₂ k with rfl | h₂
      · simp only [AggregateTable.setClient, Function.update_self, Function.update_of_ne h₁]
        exact halone.symm.imp (fun hall => hall k₁ h₁) id
      · simpa only [AggregateTable.setClient, Function.update_of_ne h₁, Function.update_of_ne h₂] using
          h.alone k₁ k₂ hne

/-- The others have nothing, or this client has nothing. -/
theorem VerbsInv.alone_of (h : ev.VerbsInv home Good s) (hp : w.events <+: (s.clients k).written.events) :
    w.events = [] ∨ ∀ k', k' ≠ k → (s.clients k').written.events = [] := by
  rcases List.eq_nil_or_concat (s.clients k).written.events with hnil | ⟨before, e, hlast⟩
  · exact .inl (List.prefix_nil.1 (hnil ▸ hp))
  · refine .inr fun k' hk => (h.alone k' k hk).resolve_right fun hnil => ?_
    rw [hlast] at hnil
    simp at hnil

theorem VerbsInv.stack (h : ev.VerbsInv home Good s) (hc : (s.clients k).calls = o :: rest) :
    ev.StackOk home Good s.events s.row (o :: rest) (s.clients k).written := hc ▸ (h.client k).stack

theorem VerbsInv.inTx (h : ev.VerbsInv home Good s) (hc : (s.clients k).calls = o :: rest) :
    (s.clients k).inTx = true := by
  rcases Bool.eq_false_or_eq_true (s.clients k).inTx with ht | hf
  · exact ht
  · have hnil := ((h.client k).idle hf).1
    rw [hc] at hnil
    cases hnil

/-- The innermost verb goes on to its next statement. -/
theorem VerbsInv.goto (h : ev.VerbsInv home Good s) (hc : (s.clients k).calls = o :: rest)
    (hr : o.phase.Resting) (hr' : phase.Resting) (hp : ev.PhaseOk Good (s.visibleEvents k) o phase) :
    ev.VerbsInv home Good (s.goto k o rest phase) := by
  obtain ⟨htop, hhome, hseen, hown, hrest, hsaved, hstack⟩ := h.stack hc
  have htx := ((topOk_of_resting hr).1 htop).1
  refine h.set ⟨⟨(topOk_of_resting (o := { o with phase }) hr').2 ⟨htx, ?_⟩, hhome, hseen, hown, hrest, hsaved,
    hstack⟩, fun hf => ?_⟩ (h.alone_of List.prefix_rfl)
  · cases phase <;> exact hp
  · rw [h.inTx hc] at hf
    cases hf

/-- The innermost verb is rolled back. -/
theorem VerbsInv.fail (h : ev.VerbsInv home Good s) (hc : (s.clients k).calls = o :: rest) :
    ev.VerbsInv home Good (s.fail k o rest) := by
  obtain ⟨-, -, -, hown, -, hsaved, hstack⟩ := h.stack hc
  refine h.set ⟨hstack, fun hf => hown ?_⟩ (h.alone_of hsaved)
  simpa using hf

/-- A transaction commits. -/
theorem VerbsInv.publish (h : ev.VerbsInv home Good s)
    (htx : ev.TxOk home Good s.events s.row (s.clients k).written) :
    ev.VerbsInv home Good (s.publish k []) := by
  have hbase : ev.TxOk home Good (s.visibleEvents k) (s.visibleRow k) .empty := by
    refine ⟨?_, ?_, fun _ => rfl⟩
    · simpa [AggregateTable.visibleEvents, VerbTx.empty] using htx.chain
    · simpa [AggregateTable.visibleEvents, AggregateTable.visibleRow, VerbTx.empty] using htx.row
  have hidle : ev.ClientOk home Good (s.visibleEvents k) (s.visibleRow k) ⟨false, .empty, []⟩ :=
    ⟨hbase, fun _ => ⟨rfl, rfl⟩⟩
  have hother : ∀ k', k' ≠ k →
      ev.ClientOk home Good (s.visibleEvents k) (s.visibleRow k) (s.clients k') := fun k' hk => by
    refine ⟨?_, (h.client k').idle⟩
    rcases h.alone k k' hk.symm with hnil | hnil
    · -- nothing is committed
      have hevents : s.visibleEvents k = s.events := by simp [AggregateTable.visibleEvents, hnil]
      have hrow : s.visibleRow k = s.row := by simp [AggregateTable.visibleRow, htx.untouched hnil]
      rw [hevents, hrow]
      exact (h.client k').stack
    · exact (h.client k').stack.rebase hnil (List.prefix_append _ _) hbase
  refine ⟨hbase, fun k' => ?_, fun k₁ k₂ hne => ?_⟩
  · rcases eq_or_ne k' k with rfl | hk
    · simpa [AggregateTable.publish] using hidle
    · simpa [AggregateTable.publish, Function.update_of_ne hk] using hother k' hk
  · rcases eq_or_ne k₁ k with rfl | h₁
    · exact .inl (by simp [AggregateTable.publish, VerbTx.empty])
    · rcases eq_or_ne k₂ k with rfl | h₂
      · exact .inr (by simp [AggregateTable.publish, VerbTx.empty])
      · simpa only [AggregateTable.publish, Function.update_of_ne h₁, Function.update_of_ne h₂] using
          h.alone k₁ k₂ hne

/-- The innermost verb ends well. -/
theorem VerbsInv.finish (h : ev.VerbsInv home Good s) (hc : (s.clients k).calls = o :: rest)
    (hr : o.phase.Resting) : ev.VerbsInv home Good (s.finish k o rest) := by
  obtain ⟨htop, -, -, hown, hrest, hsaved, hstack⟩ := h.stack hc
  have htx := ((topOk_of_resting hr).1 htop).1
  unfold AggregateTable.finish
  split
  · next ho =>
    obtain ⟨rfl, -⟩ := hown ho
    exact h.publish htx
  · refine h.set ⟨hstack.grow hrest hsaved htx, fun hf => ?_⟩ (h.alone_of List.prefix_rfl)
    rw [h.inTx hc] at hf
    cases hf

/-- The version of an append is the next one, unless it conflicts. -/
theorem VerbsInv.appendEvent (h : ev.VerbsInv home Good s) (hc : (s.clients k).calls = o :: rest)
    {e : EntityEvent J} (hr : o.phase.Resting) (hhome : e.tenantId = home)
    (hle : e.version ≤ (s.visibleEvents k).length + 1) (hpos : 0 < e.version)
    (hgood : e.version = (s.visibleEvents k).length + 1 → Good (s.visibleEvents k) e)
    (hdomain : e.payload = .domainEvent → ∀ row, ev.applied row e = row)
    (hs : s.appendEvent k o rest e = some s') : ev.VerbsInv home Good s' := by
  obtain ⟨htop, hchome, hseen, hown, hrest, hsaved, hstack⟩ := h.stack hc
  have htx := ((topOk_of_resting hr).1 htop).1
  unfold AggregateTable.appendEvent at hs
  split at hs
  · cases hs
    exact h.fail hc
  · next hnew =>
    split at hs
    · cases hs
      exact h.fail hc
    · split at hs
      · cases hs
      · next hheld =>
        have hnext : e.version = (s.visibleEvents k).length + 1 := by
          refine (Nat.lt_or_eq_of_le hle).resolve_left fun hlt => hnew ?_
          obtain ⟨e', he', htenant, hversion⟩ := exists_version htx.chain hpos (Nat.le_of_lt_succ hlt)
          exact ⟨e', he', htenant.trans hhome.symm, hversion⟩
        have hchain : Chain home Good (s.events ++ ((s.clients k).written.events ++ [e])) := by
          rw [← List.append_assoc]
          exact along_concat.2 ⟨htx.chain, hhome, hnext, hgood hnext⟩
        have halone : ∀ k', k' ≠ k → (s.clients k').written.events = [] := by
          rcases h.alone_of (k := k) List.prefix_rfl with hnil | hall
          · -- another transaction with events has inserted this version
            intro k' hk
            cases hw : (s.clients k').written.events with
            | nil => rfl
            | cons e' more =>
              refine absurd ⟨k', hk, e', by rw [hw]; exact .head _, ?_⟩ hheld
              have hchain' : Chain home Good (s.events ++ (s.clients k').written.events) := by
                have hstack' := (h.client k').stack
                cases hcalls : (s.clients k').calls with
                | nil => exact (hcalls ▸ hstack').chain
                | cons o' rest' =>
                  rw [hcalls] at hstack'
                  have htop' := hstack'.1
                  unfold TopOk at htop'
                  split at htop'
                  · exact htop'.1
                  · exact htop'.1.chain
              obtain ⟨htenant, hversion, -⟩ := hchain' s.events e' more (by rw [hw])
              refine ⟨htenant.trans hhome.symm, ?_⟩
              rw [hversion, hnext, AggregateTable.visibleEvents, hnil, List.append_nil]
          · exact hall
        cases hs
        refine h.set ⟨⟨?_, hchome, hseen.trans (by simp), hown, hrest, hsaved.trans (List.prefix_append _ _), hstack⟩,
          fun hf => ?_⟩ (.inr halone)
        · cases hpayload : e.payload with
          | domainEvent =>
            refine ⟨⟨hchain, ?_, fun hnil => by simp at hnil⟩, trivial⟩
            rw [← List.append_assoc, rowAfter_concat, hdomain hpayload]
            exact htx.row
          | created | updated | deleted | restored | forgotten =>
            exact ⟨hchain, _, rfl, htx.row⟩
        · rw [h.inTx hc] at hf
          cases hf

/-- The row is written as the appended event says. -/
theorem VerbsInv.projectEvent (h : ev.VerbsInv home Good s) (hc : (s.clients k).calls = o :: rest)
    {e : EntityEvent J} (hphase : o.phase = .project e) (hs : ev.projectEvent s k o rest e = some s') :
    ev.VerbsInv home Good s' := by
  obtain ⟨htop, hhome, hseen, hown, hrest, hsaved, hstack⟩ := h.stack hc
  unfold TopOk at htop
  rw [hphase] at htop
  obtain ⟨hchain, before, hbefore, hrow⟩ := htop
  unfold EntityVerbs.projectEvent at hs
  split at hs
  · cases hs
  · split at hs
    · cases hs
      exact h.fail hc
    · next row' happly =>
      split at hs
      · cases hs
        exact h.fail hc
      · cases hs
        refine h.set ⟨⟨⟨⟨hchain, ?_, fun hnil => ?_⟩, trivial⟩, hhome, hseen, hown, hrest, hsaved, hstack⟩,
          fun hf => ?_⟩ (h.alone_of List.prefix_rfl)
        · have hvisible : s.visibleRow k = ev.rowAfter (s.events ++ before) := hrow
          rw [hvisible] at happly
          show row' = ev.rowAfter (s.events ++ (s.clients k).written.events)
          rw [hbefore, ← List.append_assoc, rowAfter_concat, applied, happly, Option.getD_some]
        · rw [hbefore] at hnil
          simp at hnil
        · rw [h.inTx hc] at hf
          cases hf

/-! ## Every step -/

/-- A version read gives the newest version. -/
theorem currentVersion_eq {c : VerbCall J} {current : ℕ}
    (h : ev.currentVersion s k c = some current) :
    current = maxVersion (s.visibleEvents k) (ev.streamTenantFor c) := by
  unfold currentVersion at h
  dsimp only at h
  split at h
  · cases h
  · split at h
    · cases h
    · exact (Option.some.inj h).symm

theorem applied_domainEvent {e : EntityEvent J} (h : e.payload = .domainEvent) (row : Option (EntityRow J)) :
    ev.applied row e = row := by
  unfold applied applyEntityEvent
  rw [h]
  rfl

/-- The next statement of a verb keeps the invariant. -/
theorem VerbsInv.runVerb {ok : AggregateTable J n → AggregateAct J n → Prop} (hok : ev.Settles home Good ok)
    (h : ev.VerbsInv home Good s) {now : ℕ} (ha : ok s (.run k now)) (hc : (s.clients k).calls = o :: rest)
    (hs : ev.runVerb s k now o rest = some s') : ev.VerbsInv home Good s' := by
  obtain ⟨htop, hhome, hseen, -⟩ := h.stack hc
  unfold EntityVerbs.runVerb at hs
  cases hphase : o.phase with
  | project e =>
    rw [hphase] at hs
    exact h.projectEvent hc hphase hs
  | projections =>
    rw [hphase] at hs
    cases hs
    exact h.finish hc (by rw [hphase]; trivial)
  | readable loaded =>
    have hr : o.phase.Resting := by rw [hphase]; trivial
    obtain ⟨htx, hknown⟩ := (topOk_of_resting hr).1 htop
    rw [hphase] at hs hknown
    dsimp only at hs
    split at hs
    · next hread =>
      cases hs
      have hnow : ev.SeenSince (s.visibleEvents k) o.seen (s.visibleRow k) := seenSince_now hseen htx.row
      cases loaded with
      | none => exact h.goto hc hr trivial ⟨hknown.1, fun _ => ⟨hnow, hread⟩⟩
      | some previous =>
        exact h.goto hc hr trivial ⟨hknown.1.2, fun hv => absurd hv hknown.1.1,
          fun _ => ⟨hnow, hread, hknown.2 previous rfl⟩⟩
    · cases hs
      exact h.fail hc
  | load checked =>
    have hr : o.phase.Resting := by rw [hphase]; trivial
    obtain ⟨htx, hknown⟩ := (topOk_of_resting hr).1 htop
    rw [hphase] at hs hknown
    dsimp only at hs
    split at hs
    · cases hs
      exact h.fail hc
    · next previous hrow =>
      split at hs
      · cases hs
        have hnow : ev.SeenSince (s.visibleEvents k) o.seen (some previous) :=
          seenSince_now hseen (hrow.symm.trans htx.row)
        split
        · exact h.goto hc hr trivial ⟨hknown.1, fun p hp => hp ▸ hnow⟩
        · next hforget =>
          obtain ⟨hsince, hread⟩ := hknown.2 hforget
          exact h.goto hc hr trivial ⟨hknown.1.2, fun hv => absurd hv hknown.1.1, fun _ => ⟨hsince, hread, hnow⟩⟩
      · cases hs
        exact h.fail hc
  | guard checked previous =>
    have hr : o.phase.Resting := by rw [hphase]; trivial
    obtain ⟨-, hdomain, hcreate, hrows⟩ := (topOk_of_resting hr).1 htop |>.imp id (hphase ▸ ·)
    rw [hphase] at hs
    dsimp only at hs
    split at hs
    · cases hs
      exact h.fail hc
    · next changes _ =>
      split at hs
      · next hallows =>
        cases hs
        split
        · next hv =>
          refine h.goto hc hr trivial ⟨Nat.zero_le _, fun now' => ?_⟩
          rw [hcreate hv]
          exact hok.create _ _ _ _ hv
        · next hv => exact h.goto hc hr trivial ⟨hv, hallows, hrows⟩
      · cases hs
        exact h.fail hc
  | archived checked previous changes =>
    have hr : o.phase.Resting := by rw [hphase]; trivial
    have hknown := ((topOk_of_resting hr).1 htop).2
    rw [hphase] at hs hknown
    dsimp only at hs
    split at hs
    · cases hs
      exact h.fail hc
    · cases hs
      exact h.goto hc hr trivial hknown
  | version checked previous changes =>
    have hr : o.phase.Resting := by rw [hphase]; trivial
    obtain ⟨htx, hknown⟩ := (topOk_of_resting hr).1 htop
    rw [hphase] at hs hknown
    dsimp only at hs
    split at hs
    · cases hs
      exact h.fail hc
    · next current hcurrent =>
      cases hs
      have hlength : current = (s.visibleEvents k).length := by
        rw [currentVersion_eq hcurrent, hhome]
        exact maxVersion_of_chain htx.chain
      subst hlength
      refine h.goto hc hr trivial ⟨le_rfl, fun now' => ?_⟩
      rw [List.take_length]
      exact hok.version s k now o rest checked previous changes ha hc hphase hknown.1 hknown.2.1 hknown.2.2
        htx.row hcurrent now'
  | append previous changes expectedVersion =>
    have hr : o.phase.Resting := by rw [hphase]; trivial
    have hknown := ((topOk_of_resting hr).1 htop).2
    rw [hphase] at hs hknown
    refine h.appendEvent hc hr hhome (Nat.succ_le_succ hknown.1) (Nat.succ_pos _) (fun hnext => ?_)
      (fun hd => applied_domainEvent hd) hs
    have hgood := hknown.2 now
    have hall : (s.visibleEvents k).take expectedVersion = s.visibleEvents k := by
      rw [Nat.succ.inj hnext]
      exact List.take_length
    rwa [show s.events ++ (s.clients k).written.events = s.visibleEvents k from rfl, hall] at hgood

/-- What a verb knows at its call. -/
theorem phaseOk_start (hdomain : ∀ c : VerbCall J, c.verb = .domainEvent → ev.allows c (fun _ => none) (fun _ => none))
    (ho : o.phase = o.call.start) : ev.PhaseOk Good l o o.phase := by
  rw [ho]
  unfold VerbCall.start
  cases hv : o.call.verb with
  | create => exact ⟨by simp [hv], fun _ => rfl, fun hr => absurd hv hr.1⟩
  | forget => exact ⟨⟨by simp [hv], by simp [hv]⟩, fun hne => absurd hv hne⟩
  | domainEvent => exact ⟨by simp [hv], hdomain _ hv, fun hr => absurd hv hr.2⟩
  | update | delete | restore => exact ⟨⟨by simp [hv], by simp [hv]⟩, fun _ he => by cases he⟩

theorem resting_start (c : VerbCall J) : c.start.Resting := by
  unfold VerbCall.start
  split <;> trivial

/-- A verb begins, in the transaction of its client or in one of its own. -/
theorem VerbsInv.call (h : ev.VerbsInv home Good s) {c : VerbCall J} (hhome : ev.streamTenantFor c = home)
    (hnest : ∀ p ∈ (s.clients k).calls.head?, p.phase.mayNest p.call = true) :
    ev.VerbsInv home Good (s.setClient k { s.clients k with
      inTx := true, calls := ev.openVerb s k c :: (s.clients k).calls }) := by
  have hrest : ∀ p ∈ (s.clients k).calls.head?, p.phase.Resting := fun p hp => by
    have hp := hnest p hp
    cases hphase : p.phase with
    | project => rw [hphase] at hp; cases hp
    | _ => trivial
  have htx := (h.client k).stack.txOk hrest
  have hphase : ev.PhaseOk Good (s.visibleEvents k) (ev.openVerb s k c) c.start :=
    phaseOk_start (o := ev.openVerb s k c) (fun c hc => by simp [allows, hc]) rfl
  refine h.set ⟨⟨(topOk_of_resting (resting_start c)).2 ⟨htx, hphase⟩, hhome, ?_, fun hown => ?_, hrest,
    List.prefix_rfl, (h.client k).stack⟩, fun hf => by cases hf⟩ (h.alone_of List.prefix_rfl)
  · show maxVersion (s.visibleEvents k) (ev.streamTenantFor c) ≤ (s.visibleEvents k).length
    rw [hhome]
    exact (maxVersion_of_chain htx.chain).le
  · exact (h.client k).idle (by simpa [openVerb] using hown)

/-- Every step of a run keeps the invariant. -/
theorem VerbsInv.step {ok : AggregateTable J n → AggregateAct J n → Prop} (hok : ev.Settles home Good ok)
    (h : ev.VerbsInv home Good s) {a : AggregateAct J n} (ha : ok s a) (hs : ev.step s a = some s') :
    ev.VerbsInv home Good s' := by
  cases a with
  | begin k =>
    simp only [EntityVerbs.step, Option.ite_none_left_eq_some, Option.some.injEq] at hs
    obtain ⟨-, rfl⟩ := hs
    exact h.set ⟨h.committed, fun hf => by cases hf⟩ (.inl rfl)
  | commit k =>
    simp only [EntityVerbs.step, Option.ite_none_right_eq_some, Option.some.injEq] at hs
    obtain ⟨⟨-, hnil⟩, rfl⟩ := hs
    have hcalls : (s.clients k).calls = [] := List.isEmpty_iff.1 hnil
    exact h.publish ((h.client k).stack.txOk fun p hp => by simp [hcalls] at hp)
  | rollback k =>
    simp only [EntityVerbs.step, Option.ite_none_right_eq_some, Option.some.injEq] at hs
    obtain ⟨-, rfl⟩ := hs
    exact h.set ⟨h.committed, fun _ => ⟨rfl, rfl⟩⟩ (.inl rfl)
  | call k c =>
    simp only [EntityVerbs.step, Option.ite_none_right_eq_some, Option.some.injEq] at hs
    obtain ⟨hnest, rfl⟩ := hs
    refine h.call (hok.home s k c ha) fun p hp => ?_
    have hp : (s.clients k).calls.head? = some p := hp
    simpa [hp] using hnest
  | run k now =>
    simp only [EntityVerbs.step] at hs
    split at hs
    · cases hs
    · next o rest hc => exact h.runVerb hok ha hc hs
  | error k =>
    simp only [EntityVerbs.step] at hs
    split at hs
    · cases hs
    · next o rest hc =>
      cases hs
      exact h.fail hc
  | archive tenantId =>
    cases hs
    exact ⟨h.committed, h.client, h.alone⟩
  | unarchive tenantId =>
    cases hs
    exact ⟨h.committed, h.client, h.alone⟩

theorem verbsInv_initial : ev.VerbsInv home Good (.initial : AggregateTable J n) := by
  have htx : ev.TxOk home Good [] none .empty := ⟨along_nil, rfl, fun _ => rfl⟩
  exact ⟨htx, fun _ => ⟨htx, fun _ => ⟨rfl, rfl⟩⟩, fun _ _ _ => .inl rfl⟩

/-- After every run on one stream the row is what its events make of it, and `Good` holds along them. -/
theorem verbsInv_of_run {ok : AggregateTable J n → AggregateAct J n → Prop} (hok : ev.Settles home Good ok)
    (hr : Run ev.step ok .initial s) : ev.VerbsInv home Good s :=
  hr.invariant verbsInv_initial fun _ _ _ h ha hs => h.step hok ha hs

end EntityVerbs

end Kumiko
