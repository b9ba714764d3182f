import Kumiko.EventStore.Append

/-!
# The sessions of the store

What a step of the store can do (`StoreStep`), and what it leaves in the sessions: every open
transaction is a running writer of the log and has one session, every call has its own number, a
row that a call has inserted carries the transaction of the call's session as long as the call goes
on, and the rows of a call that failed are rolled back (`SessionInv`).
-/

namespace Kumiko

/-- The call is past the last point at which it can throw in a transaction that goes on. -/
def CallPhase.inserting : CallPhase → Bool
  | .draw .. | .place .. | .commit => true
  | _ => false

/-- The call may have inserted a row. -/
def CallPhase.MayHaveRows : CallPhase → Prop
  | .draw w rest => w.isBatch ∨ rest = []
  | .place w .. => w.isBatch
  | .commit => True
  | _ => False

namespace Store

/-- The first statement of a request's call. -/
inductive Starts : AppendRequest → CallPhase → Prop
  | append {ev : EventToAppend} : Starts (.append ev) (.claim (.append ev))
  | appendRaw {ev : EventToAppend} : Starts (.appendRaw ev) (.claim (.appendRaw ev))
  | appendRawBatch {first : EventToAppend} {others : List EventToAppend}
      (h : verifyContiguousWithinBatch (first :: others) = none) :
      Starts (.appendRawBatch (first :: others))
        (.predecessors first others (batchGroups (first :: others)))
  | appendDomainEvent {ev : EventToAppend} {v : Option ℤ} :
      Starts (.appendDomainEvent ev v) (.archiveCheck ev v)

/-- A statement that changes nothing but the call's phase. -/
inductive PhaseStep (s : Store) (k : ℕ) : CallPhase → CallPhase → Prop
  | unpinned {ev : EventToAppend} : PhaseStep s k (.archiveCheck ev none) (.streamVersion ev)
  | pinned {ev : EventToAppend} {v : ℤ} : PhaseStep s k (.archiveCheck ev (some v))
      (.claim (.append { ev with expectedVersion := v }))
  | streamVersion {ev : EventToAppend} : PhaseStep s k (.streamVersion ev)
      (.claim (.append { ev with expectedVersion := streamMaxVersion (s.view k) ev.stream }))
  | predecessor {first : EventToAppend} {others : List EventToAppend} {g : BatchGroup}
      {groups : List BatchGroup}
      (h : g.minExpected = 0 ∨ ∃ r ∈ s.view k, r.stream = g.stream ∧ r.version = g.minExpected) :
      PhaseStep s k (.predecessors first others (g :: groups)) (.predecessors first others groups)
  | predecessors {first : EventToAppend} {others : List EventToAppend} :
      PhaseStep s k (.predecessors first others []) (.duplicates first others)
  | duplicates {first : EventToAppend} {others : List EventToAppend} :
      PhaseStep s k (.duplicates first others) (.claim (.appendRawBatch first others))
  | claimed {w : EventWrite} {x : ℕ} (hx : (s.sessions k).xid = some x) :
      PhaseStep s k (.claim w) (.seedCheck w)
  | seedCheck {w : EventWrite} : PhaseStep s k (.seedCheck w) (.gate w)
  | gate {w : EventWrite} (h : s.PassesGate k w) : PhaseStep s k (.gate w) (.draw w w.events)
  | missed {ev : EventToAppend} : PhaseStep s k (.gate (.append ev)) (.conflicted ev)
  | conflict {ev ev' : EventToAppend} {id : ℕ} {rest : List EventToAppend} :
      PhaseStep s k (.place (.append ev) id ev' rest) (.conflicted ev)
  | complete {w : EventWrite} : PhaseStep s k (.draw w []) .commit

/-- A current version comes with an error only from a conditional insert without a row, and is the
one the call has read. -/
def Reports (s : Store) (k : ℕ) (phase : CallPhase) (e : AppendError) : Prop :=
  ∀ aggregateId expected v, e = .versionConflict aggregateId expected (some v) →
    ∃ ev, phase = .conflicted ev ∧ aggregateId = ev.aggregateId ∧
      v = streamMaxVersion (s.view k) ev.stream

/-- What a step of the store can do. -/
inductive StoreStep (s : Store) : StoreAct → Store → Prop
  | archive {a : StoreAct} (archived : List (String × String)) : StoreStep s a { s with archived }
  | begin {a : StoreAct} {k : ℕ} (hc : (s.sessions k).call = none) :
      StoreStep s a (s.setSession k { s.sessions k with inTx := true })
  | leave {a : StoreAct} {k : ℕ} (hx : (s.sessions k).xid = none) :
      StoreStep s a (s.setSession k .idle)
  | commit {a : StoreAct} {k x : ℕ} {log : Log}
      (hc : ∀ c, (s.sessions k).call = some c → c.phase = .commit)
      (hx : (s.sessions k).xid = some x) (hl : s.log.step (.commit x) = some log) :
      StoreStep s a { s.setSession k .idle with log }
  | rollback {a : StoreAct} {k x : ℕ} {log : Log} (hc : (s.sessions k).call = none)
      (hx : (s.sessions k).xid = some x) (hl : s.log.step (.abort x) = some log) :
      StoreStep s a { s.setSession k .idle with log }
  | start {k : ℕ} {request : AppendRequest} {phase : CallPhase} (hc : (s.sessions k).call = none)
      (hp : Starts request phase) :
      StoreStep s (.call k request) { s.goto k s.nextCall phase with nextCall := s.nextCall + 1 }
  | reject {a : StoreAct} {e : AppendError}
      (he : ∀ aggregateId expected v, e ≠ .versionConflict aggregateId expected (some v)) :
      StoreStep s a { s with nextCall := s.nextCall + 1, failures := ⟨s.nextCall, e⟩ :: s.failures }
  | goto {a : StoreAct} {k n : ℕ} {phase phase' : CallPhase}
      (hc : (s.sessions k).call = some ⟨n, phase⟩) (hp : PhaseStep s k phase phase') :
      StoreStep s a (s.goto k n phase')
  | claim {a : StoreAct} {k n : ℕ} {w : EventWrite} {log : Log}
      (hc : (s.sessions k).call = some ⟨n, .claim w⟩) (hx : (s.sessions k).xid = none)
      (hl : s.log.step .claim = some log) :
      StoreStep s a { s.setSession k { s.sessions k with
        xid := some s.log.xacts.nextXid, call := some ⟨n, .seedCheck w⟩ } with log }
  | draw {a : StoreAct} {k n x : ℕ} {w : EventWrite} {ev : EventToAppend}
      {rest : List EventToAppend} {log : Log}
      (hc : (s.sessions k).call = some ⟨n, .draw w (ev :: rest)⟩)
      (hx : (s.sessions k).xid = some x) (hl : s.log.step (.draw x) = some log) :
      StoreStep s a { s.goto k n (.place w s.log.nextId ev rest) with log }
  | insert {a : StoreAct} {k n x id now : ℕ} {w : EventWrite} {ev : EventToAppend}
      {rest : List EventToAppend} {log : Log}
      (hc : (s.sessions k).call = some ⟨n, .place w id ev rest⟩)
      (hu : s.uniqueCheck k ev = .free) (hx : (s.sessions k).xid = some x)
      (hl : s.log.step (.insert x id (ev.toNewEvent now)) = some log) :
      StoreStep s a { s.goto k n (.draw w rest) with
        log, writes := s.writes ++ [⟨n, ev, id, x⟩] }
  | complete {a : StoreAct} {k n : ℕ} {w : EventWrite}
      (hc : (s.sessions k).call = some ⟨n, .draw w []⟩) :
      StoreStep s a (s.setSession k { s.sessions k with call := none })
  | fail {a : StoreAct} {k : ℕ} {c : OpenCall} {e : AppendError}
      (hc : (s.sessions k).call = some c) (hi : c.phase.inserting = false)
      (he : Reports s k c.phase e) :
      StoreStep s a { s.setSession k { s.sessions k with call := none } with
        failures := ⟨c.number, e⟩ :: s.failures }
  | raise {a : StoreAct} {k : ℕ} {c : OpenCall} {e : AppendError} {inTx failed : Bool} {log : Log}
      (hc : (s.sessions k).call = some c) (he : Reports s k c.phase e)
      (hl : s.abortLog (s.sessions k).xid = some log) :
      StoreStep s a { s.setSession k { inTx, failed, xid := none, call := none } with
        log, failures := ⟨c.number, e⟩ :: s.failures }

section
variable {s s' : Store} {a : StoreAct} {k now n : ℕ} {phase : CallPhase} {e : AppendError}

theorem StoreStep.of_raise (hc : (s.sessions k).call = some ⟨n, phase⟩)
    (he : Reports s k phase e) (h : s.raise k n e = some s') : StoreStep s a s' := by
  obtain ⟨log, hl, rfl⟩ := Option.map_eq_some_iff.1 h
  exact .raise hc he hl

theorem StoreStep.of_fail (hc : (s.sessions k).call = some ⟨n, phase⟩)
    (hi : phase.inserting = false) (he : Reports s k phase e) (h : s.fail k n e = some s') :
    StoreStep s a s' := by
  unfold Store.fail at h
  split at h
  · cases h
    exact .fail hc hi he
  · exact .of_raise hc he h

theorem reports_mapEventUniqueViolation {constraint : EventsConstraint} {ev : EventToAppend} :
    Reports s k phase (mapEventUniqueViolation constraint ev) := by
  intro aggregateId expected v h
  unfold mapEventUniqueViolation at h
  split at h
  · split at h <;> cases h
  · cases h

theorem reports_seedTimeError {w : EventWrite} (hs : s.seedTimeError k w = some e) :
    Reports s k phase e := by
  intro aggregateId expected v h
  subst h
  unfold seedTimeError at hs
  split at hs
  · split at hs
    · split at hs <;> cases hs
    · cases hs
  · cases hs

theorem verifyContiguousWithinBatch_ne {evs : List EventToAppend}
    (h : verifyContiguousWithinBatch evs = some e) (aggregateId : String) (expected v : ℤ) :
    e ≠ .versionConflict aggregateId expected (some v) := by
  rintro rfl
  obtain ⟨stream, -, h⟩ := List.exists_of_findSome?_eq_some h
  split at h
  · cases h
  · obtain ⟨curr, -, h⟩ := Option.map_eq_some_iff.1 h
    cases h

theorem StoreStep.of_commitTx (hc : ∀ c, (s.sessions k).call = some c → c.phase = .commit)
    (h : s.commitTx k = some s') : StoreStep s a s' := by
  unfold commitTx at h
  split at h
  · next hx =>
    cases h
    exact .leave hx
  · next hx =>
    obtain ⟨log, hl, rfl⟩ := Option.map_eq_some_iff.1 h
    exact .commit hc hx hl

/-- A statement of a call is one of the steps. -/
theorem StoreStep.of_runCall (hc : (s.sessions k).call = some ⟨n, phase⟩)
    (h : s.runCall k now n phase = some s') : StoreStep s a s' := by
  cases phase with
  | archiveCheck ev v =>
    simp only [runCall] at h
    split at h
    · exact .of_fail hc rfl (by rintro _ _ _ ⟨⟩) h
    · split at h <;> cases h
      · exact .goto hc .unpinned
      · exact .goto hc .pinned
  | streamVersion ev =>
    cases h
    exact .goto hc .streamVersion
  | predecessors first others groups =>
    cases groups with
    | nil =>
      cases h
      exact .goto hc .predecessors
    | cons g groups =>
      simp only [runCall] at h
      split at h
      · next hg =>
        cases h
        exact .goto hc (.predecessor hg)
      · exact .of_fail hc rfl (by rintro _ _ _ ⟨⟩) h
  | duplicates first others =>
    simp only [runCall] at h
    split at h
    · exact .of_fail hc rfl (by rintro _ _ _ ⟨⟩) h
    · cases h
      exact .goto hc .duplicates
  | claim w =>
    simp only [runCall] at h
    split at h
    · next hx =>
      cases h
      exact .goto hc (.claimed hx)
    · next hx =>
      obtain ⟨log, hl, rfl⟩ := Option.map_eq_some_iff.1 h
      exact .claim hc hx hl
  | seedCheck w =>
    simp only [runCall] at h
    split at h
    · next he => exact .of_fail hc rfl (reports_seedTimeError he) h
    · cases h
      exact .goto hc .seedCheck
  | gate w =>
    simp only [runCall] at h
    split at h
    · next hg =>
      cases h
      exact .goto hc (.gate hg)
    · cases w with
      | append ev =>
        cases h
        exact .goto hc .missed
      | appendRaw | appendRawBatch => exact .of_fail hc rfl (by rintro _ _ _ ⟨⟩) h
  | draw w rest =>
    cases rest with
    | nil =>
      simp only [runCall, Option.some.injEq] at h
      subst h
      unfold Store.complete
      split
      · exact .complete hc
      · exact .goto hc .complete
    | cons ev rest =>
      obtain ⟨x, hx, h⟩ := Option.bind_eq_some_iff.1 h
      obtain ⟨log, hl, rfl⟩ := Option.map_eq_some_iff.1 h
      exact .draw hc hx hl
  | place w id ev rest =>
    simp only [runCall] at h
    split at h
    · cases h
    · cases h
      exact .goto hc .conflict
    · exact .of_raise hc reports_mapEventUniqueViolation h
    · next hu =>
      obtain ⟨x, hx, h⟩ := Option.bind_eq_some_iff.1 h
      obtain ⟨log, hl, rfl⟩ := Option.map_eq_some_iff.1 h
      exact .insert hc hu hx hl
  | conflicted ev =>
    refine .of_fail hc rfl (fun _ _ _ he => ?_) h
    cases he
    exact ⟨ev, rfl, rfl, rfl⟩
  | commit =>
    refine .of_commitTx (fun c hc' => ?_) h
    rw [hc] at hc'
    cases hc'
    rfl

theorem StoreStep.of_startCall {request : AppendRequest} (hc : (s.sessions k).call = none) :
    StoreStep s (.call k request) (s.startCall k request) := by
  cases request with
  | append ev => exact .start hc .append
  | appendRaw ev => exact .start hc .appendRaw
  | appendRawBatch evs =>
    cases evs with
    | nil => exact .archive s.archived
    | cons first others =>
      simp only [startCall]
      split
      · next h => exact .reject (verifyContiguousWithinBatch_ne h)
      · next h => exact .start hc (.appendRawBatch h)
  | appendDomainEvent ev v => exact .start hc .appendDomainEvent

/-- Every step of the store is one of the steps. -/
theorem StoreStep.of_step (h : s.step a = some s') : StoreStep s a s' := by
  cases a with
  | begin k =>
    simp only [step] at h
    split at h
    · cases h
    · next hn =>
      cases h
      exact .begin (by simpa using fun hc => hn (.inr hc))
  | commit k =>
    simp only [step, Option.ite_none_right_eq_some] at h
    obtain ⟨⟨-, hc⟩, h⟩ := h
    exact .of_commitTx (fun c hc' => by rw [hc] at hc'; cases hc') h
  | rollback k =>
    simp only [step, Option.ite_none_right_eq_some] at h
    obtain ⟨⟨-, hc⟩, h⟩ := h
    obtain ⟨log, hl, rfl⟩ := Option.map_eq_some_iff.1 h
    cases hx : (s.sessions k).xid with
    | none =>
      rw [hx] at hl
      cases hl
      exact .leave hx
    | some x =>
      rw [hx] at hl
      exact .rollback hc hx hl
  | call k request =>
    simp only [step, Option.ite_none_right_eq_some, Option.some.injEq] at h
    obtain ⟨hc, rfl⟩ := h
    exact .of_startCall hc
  | run k now =>
    obtain ⟨⟨n, phase⟩, hc, h⟩ := Option.bind_eq_some_iff.1 h
    split at h
    · exact .of_raise hc (by rintro _ _ _ ⟨⟩) h
    · exact .of_runCall hc h
  | error k =>
    obtain ⟨⟨n, phase⟩, hc, h⟩ := Option.bind_eq_some_iff.1 h
    exact .of_raise hc (by rintro _ _ _ ⟨⟩) h
  | archiveStream stream =>
    cases h
    exact .archive _
  | restoreStream stream =>
    cases h
    exact .archive _

end

end Store

/-! ## The invariant of the sessions -/

/-- What a phase keeps of its insert. -/
def CallPhase.WF : CallPhase → Prop
  | .draw w rest => rest <:+ w.events
  | .place w _ ev rest => ev :: rest <:+ w.events
  | _ => True

/-- Two sessions have different transactions and different calls. -/
structure Session.Distinct (σ σ' : Session) : Prop where
  xid : ∀ x, σ.xid = some x → σ'.xid ≠ some x
  call : ∀ c c', σ.call = some c → σ'.call = some c' → c.number ≠ c'.number

theorem Session.Distinct.symm {σ σ' : Session} (h : Session.Distinct σ σ') : Session.Distinct σ' σ :=
  ⟨fun x hx hx' => h.xid x hx' hx, fun c c' hc hc' he => h.call c' c hc' hc he.symm⟩

namespace Store

/-- What a session keeps. -/
structure SessionOk (s : Store) (σ : Session) : Prop where
  /-- Its transaction is a writer of the log in progress. -/
  xid : ∀ x, σ.xid = some x → s.log.Writing x
  /-- Its call has a number. -/
  call_lt : ∀ c, σ.call = some c → c.number < s.nextCall
  phase : ∀ c, σ.call = some c → c.phase.WF
  /-- A row of its call is in its transaction. -/
  writes : ∀ c, σ.call = some c → ∀ w ∈ s.writes, w.call = c.number →
    σ.xid = some w.xid ∧ c.phase.MayHaveRows
  /-- Its call has not failed. -/
  failures : ∀ c, σ.call = some c → ∀ f ∈ s.failures, f.call ≠ c.number

/-- What the store keeps about its sessions, and about the rows its calls have written. -/
structure SessionInv (s : Store) : Prop where
  log : s.log.WF
  pruned : s.log.pruned = []
  session : ∀ k, SessionOk s (s.sessions k)
  distinct : ∀ k k', k ≠ k' → Session.Distinct (s.sessions k) (s.sessions k')
  write_lt : ∀ w ∈ s.writes, w.call < s.nextCall
  failure_lt : ∀ f ∈ s.failures, f.call < s.nextCall
  /-- The rows of a failed call are rolled back. -/
  failed : ∀ f ∈ s.failures, ∀ w ∈ s.writes, w.call = f.call → s.log.xacts.Aborted w.xid
  /-- Every insert made a row of the log. -/
  row : ∀ w ∈ s.writes, ∃ r ∈ s.log.rows, r.id = w.id ∧ r.xid = w.xid ∧
    r.stream = w.event.stream ∧ r.version = w.event.newVersion
  /-- No two inserts made the same row. -/
  ids : s.writes.Pairwise fun w w' => w.id ≠ w'.id

theorem sessionInv_initial : SessionInv .initial where
  log := Log.initial_wf
  pruned := rfl
  session _ := ⟨(fun _ h => nomatch h), (fun _ h => nomatch h), (fun _ h => nomatch h),
    (fun _ h => nomatch h), (fun _ h => nomatch h)⟩
  distinct _ _ _ := ⟨(fun _ h => nomatch h), (fun _ _ h => nomatch h)⟩
  write_lt _ h := nomatch h
  failure_lt _ h := nomatch h
  failed _ h := nomatch h
  row _ h := nomatch h
  ids := .nil

section
variable {s s' : Store} {σ : Session} {a : StoreAct} {k : ℕ}

/-- The log of a store moves on by a step of a writer, if at all. -/
theorem abortLog_cases {x : Option ℕ} {log : Log} (h : s.abortLog x = some log) :
    (x = none ∧ log = s.log) ∨ ∃ y, x = some y ∧ s.log.step (.abort y) = some log := by
  cases x with
  | none =>
    cases h
    exact .inl ⟨rfl, rfl⟩
  | some y => exact .inr ⟨y, rfl, h⟩

/-- The log of a store moves on by a step of a writer, if at all. -/
theorem StoreStep.log (h : StoreStep s a s') :
    s'.log = s.log ∨ ∃ la, s.log.step la = some s'.log := by
  cases h with
  | archive | begin | leave | start | reject | goto | complete | fail => exact .inl rfl
  | commit _ _ hl | rollback _ _ hl | claim _ _ hl | draw _ _ hl | insert _ _ _ hl =>
    exact .inr ⟨_, hl⟩
  | raise _ _ hl =>
    rcases abortLog_cases hl with ⟨-, rfl⟩ | ⟨y, -, hl⟩
    · exact .inl rfl
    · exact .inr ⟨_, hl⟩

/-- What a step leaves of the log. -/
theorem SessionInv.step_log (h : SessionInv s) (hs : StoreStep s a s') :
    s.log.Ext s'.log ∧ s'.log.WF ∧ s'.log.pruned = [] := by
  rcases hs.log with he | ⟨la, hl⟩
  · rw [he]
    exact ⟨.refl _, h.log, h.pruned⟩
  · exact ⟨Log.ext_step hl, h.log.step hl, (Log.step_pruned hl).trans h.pruned⟩

/-- What a step must leave of a session that it does not touch. -/
theorem SessionOk.frame (h : SessionOk s σ) (hx : ∀ x, σ.xid = some x → s'.log.Writing x)
    (hn : s.nextCall ≤ s'.nextCall)
    (hw : ∀ w ∈ s'.writes, w ∈ s.writes ∨ ∀ c, σ.call = some c → w.call ≠ c.number)
    (hf : ∀ f ∈ s'.failures, f ∈ s.failures ∨ ∀ c, σ.call = some c → f.call ≠ c.number) :
    SessionOk s' σ where
  xid := hx
  call_lt c hc := (h.call_lt c hc).trans_le hn
  phase := h.phase
  writes c hc w hw' hn' := by
    rcases hw w hw' with hm | hne
    · exact h.writes c hc w hm hn'
    · exact absurd hn' (hne c hc)
  failures c hc f hf' := by
    rcases hf f hf' with hm | hne
    · exact h.failures c hc f hm
    · exact hne c hc

/-- The other sessions' transactions go on when one session's log step is its own. -/
theorem SessionInv.writing_of_ne (h : SessionInv s) {la : LogAct} {log : Log} {k' x y : ℕ}
    (hl : s.log.step la = some log) (hx : (s.sessions k).xid = some x) (hne : k' ≠ k)
    (hy : (s.sessions k').xid = some y) (hc : ∀ z, z ≠ x → la ≠ .commit z ∧ la ≠ .abort z) :
    log.Writing y := by
  have hyx : y ≠ x := fun he => (h.distinct k' k hne).xid y hy (he ▸ hx)
  exact Log.Writing.step ((h.session k').xid y hy) (hc y hyx).1 (hc y hyx).2 hl

/-- One session changes: it keeps its own conditions, and its transaction and its call are its old
ones or new. -/
theorem SessionInv.update (h : SessionInv s) (hs : s'.sessions = Function.update s.sessions k σ)
    (hσ : SessionOk s' σ) (ho : ∀ k' ≠ k, SessionOk s' (s.sessions k'))
    (hx : ∀ x, σ.xid = some x →
      (s.sessions k).xid = some x ∨ ∀ k', (s.sessions k').xid ≠ some x)
    (hc : ∀ c, σ.call = some c → (∃ c', (s.sessions k).call = some c' ∧ c'.number = c.number) ∨
      s.nextCall ≤ c.number) :
    (∀ k, SessionOk s' (s'.sessions k)) ∧
      ∀ k k', k ≠ k' → Session.Distinct (s'.sessions k) (s'.sessions k') := by
  have hd : ∀ k' ≠ k, Session.Distinct σ (s.sessions k') := fun k' hne => by
    refine ⟨fun x hxσ hxk => ?_, fun c c' hcσ hck he => ?_⟩
    · rcases hx x hxσ with hk | hnew
      · exact (h.distinct k k' hne.symm).xid x hk hxk
      · exact hnew k' hxk
    · rcases hc c hcσ with ⟨c₀, hc₀, hn⟩ | hge
      · exact (h.distinct k k' hne.symm).call c₀ c' hc₀ hck (hn.trans he)
      · have := (h.session k').call_lt c' hck
        omega
  rw [hs]
  refine ⟨fun k₁ => ?_, fun k₁ k₂ hne => ?_⟩
  · by_cases h₁ : k₁ = k
    · subst h₁
      rwa [Function.update_self]
    · rw [Function.update_of_ne h₁]
      exact ho k₁ h₁
  · by_cases h₁ : k₁ = k
    · subst h₁
      rw [Function.update_self, Function.update_of_ne hne.symm]
      exact hd k₂ hne.symm
    · rw [Function.update_of_ne h₁]
      by_cases h₂ : k₂ = k
      · subst h₂
        rw [Function.update_self]
        exact (hd k₁ h₁).symm
      · rw [Function.update_of_ne h₂]
        exact h.distinct k₁ k₂ hne

/-- The rows that calls have written stay what they are. -/
theorem SessionInv.row_ext (h : SessionInv s) (he : s.log.Ext s'.log) :
    ∀ w ∈ s.writes, ∃ r ∈ s'.log.rows, r.id = w.id ∧ r.xid = w.xid ∧
      r.stream = w.event.stream ∧ r.version = w.event.newVersion := fun w hw => by
  obtain ⟨r, hr, hw⟩ := h.row w hw
  exact ⟨r, he.rows r hr, hw⟩

/-- A step that neither writes nor fails keeps the invariant when it keeps the sessions. -/
theorem SessionInv.of_sessions (h : SessionInv s) (hs : StoreStep s a s')
    (hw : s'.writes = s.writes) (hf : s'.failures = s.failures) (hn : s.nextCall ≤ s'.nextCall)
    (hss : (∀ k, SessionOk s' (s'.sessions k)) ∧
      ∀ k k', k ≠ k' → Session.Distinct (s'.sessions k) (s'.sessions k')) : SessionInv s' := by
  obtain ⟨he, hwf, hp⟩ := h.step_log hs
  refine ⟨hwf, hp, hss.1, hss.2, fun w hm => ?_, fun f hm => ?_, fun f hm w hm' hc => ?_, ?_, ?_⟩
  · exact (h.write_lt w (hw ▸ hm)).trans_le hn
  · exact (h.failure_lt f (hf ▸ hm)).trans_le hn
  · exact (h.failed f (hf ▸ hm) w (hw ▸ hm') hc).ext he.xacts
  · rw [hw]
    exact h.row_ext he
  · rw [hw]
    exact h.ids

end

/-! ## Every step keeps the invariant -/

section
variable {s s' : Store} {a : StoreAct} {k n x : ℕ} {c : OpenCall} {σ : Session} {log : Log}
  {w : EventWrite} {ev : EventToAppend} {rest : List EventToAppend} {phase phase' : CallPhase}
  {e : AppendError}

theorem PhaseStep.wf (hp : PhaseStep s k phase phase') (h : phase.WF) : phase'.WF := by
  cases hp with
  | gate => exact List.suffix_refl _
  | _ => trivial

/-- A phase that goes on has rows only if it had them before. -/
theorem PhaseStep.mayHaveRows (hp : PhaseStep s k phase phase') (h : phase.MayHaveRows) :
    phase'.MayHaveRows := by
  cases hp with
  | complete => trivial
  | conflict => exact absurd h (by simp [CallPhase.MayHaveRows, EventWrite.isBatch])
  | _ => exact h.elim

/-- The insert of a single event has no row before its last one. -/
theorem CallPhase.MayHaveRows.place {id : ℕ}
    (h : (CallPhase.draw w (ev :: rest)).MayHaveRows) : (CallPhase.place w id ev rest).MayHaveRows :=
  h.resolve_right (List.cons_ne_nil _ _)

/-- After the row of a single event the insert is complete. -/
theorem CallPhase.WF.mayHaveRows {id : ℕ} (h : (CallPhase.place w id ev rest).WF) :
    (CallPhase.draw w rest).MayHaveRows := by
  cases w with
  | appendRawBatch => exact .inl rfl
  | append | appendRaw =>
    have := h.length_le
    simp only [EventWrite.events, List.length_cons, List.length_nil] at this
    exact .inr (List.length_eq_zero_iff.1 (by omega))

/-- A session of a step that only changes its phase. -/
theorem SessionInv.goto (h : SessionInv s) (hc : (s.sessions k).call = some ⟨n, phase⟩)
    (hp : PhaseStep s k phase phase') : SessionInv (s.goto k n phase') := by
  have hk := h.session k
  refine h.of_sessions (.goto (a := .error k) hc hp) rfl rfl le_rfl
    (h.update (k := k) rfl ⟨hk.xid, ?_, ?_, ?_, ?_⟩ (fun k' _ => ?_) (fun x hx => .inl hx) ?_)
  · rintro _ ⟨⟩
    exact hk.call_lt ⟨n, phase⟩ hc
  · rintro _ ⟨⟩
    exact hp.wf (hk.phase _ hc)
  · rintro _ ⟨⟩ w hw hn
    have ⟨hx, hm⟩ := hk.writes _ hc w hw hn
    exact ⟨hx, hp.mayHaveRows hm⟩
  · rintro _ ⟨⟩
    exact hk.failures ⟨n, phase⟩ hc
  · exact (h.session k').frame (h.session k').xid le_rfl (fun _ => .inl) fun _ => .inl
  · rintro _ ⟨⟩
    exact .inl ⟨_, hc, rfl⟩

/-- The end of a call or of a transaction: the session is left without a call. -/
theorem SessionInv.closed (h : SessionInv s) (hs : StoreStep s a s')
    (hss : s'.sessions = Function.update s.sessions k σ) (hσ : σ.call = none)
    (hx : ∀ x, σ.xid = some x → (s.sessions k).xid = some x ∧ s'.log = s.log)
    (ho : ∀ k' ≠ k, ∀ x, (s.sessions k').xid = some x → s'.log.Writing x)
    (hw : s'.writes = s.writes) (hn : s.nextCall ≤ s'.nextCall)
    (hf : s'.failures = s.failures ∨ ∃ c e, (s.sessions k).call = some c ∧
      s'.failures = ⟨c.number, e⟩ :: s.failures ∧
      ∀ w ∈ s.writes, w.call = c.number → s'.log.xacts.Aborted w.xid) : SessionInv s' := by
  obtain ⟨he, hwf, hp⟩ := h.step_log hs
  have hss := h.update hss
    ⟨fun x hx' => by
      obtain ⟨hk, hl⟩ := hx x hx'
      rw [hl]
      exact (h.session k).xid x hk,
      (fun c hc => by rw [hσ] at hc; cases hc), (fun c hc => by rw [hσ] at hc; cases hc),
      (fun c hc => by rw [hσ] at hc; cases hc), (fun c hc => by rw [hσ] at hc; cases hc)⟩
    (fun k' hne => (h.session k').frame (ho k' hne) hn (fun w hm => .inl (hw ▸ hm)) fun f hm => ?_)
    (fun x hx' => .inl (hx x hx').1) (fun c hc => by rw [hσ] at hc; cases hc)
  · refine ⟨hwf, hp, hss.1, hss.2, fun w hm => ?_, fun f hm => ?_, fun f hm w hm' hcall => ?_, ?_, ?_⟩
    · exact (h.write_lt w (hw ▸ hm)).trans_le hn
    · rcases hf with hf | ⟨c, e, hc, hf, -⟩ <;> rw [hf] at hm
      · exact (h.failure_lt f hm).trans_le hn
      · cases hm with
        | head => exact ((h.session k).call_lt c hc).trans_le hn
        | tail _ hm => exact (h.failure_lt f hm).trans_le hn
    · rw [hw] at hm'
      rcases hf with hf | ⟨c, e, hc, hf, hab⟩ <;> rw [hf] at hm
      · exact (h.failed f hm w hm' hcall).ext he.xacts
      · cases hm with
        | head => exact hab w hm' hcall
        | tail _ hm => exact (h.failed f hm w hm' hcall).ext he.xacts
    · rw [hw]
      exact h.row_ext he
    · rw [hw]
      exact h.ids
  · rcases hf with hf | ⟨c, e, hc, hf, -⟩ <;> rw [hf] at hm
    · exact .inl hm
    · cases hm with
      | head =>
        exact .inr fun c' hc' => ((h.distinct k k' (Ne.symm hne)).call c c' hc hc')
      | tail _ hm => exact .inl hm

/-- The conditions of a session after its call's next phase. -/
theorem SessionInv.session_next (h : SessionInv s) (hc : (s.sessions k).call = some ⟨n, phase⟩)
    (hx : ∀ x, σ.xid = some x → s'.log.Writing x) (hσ : σ.call = some ⟨n, phase'⟩)
    (hn : s'.nextCall = s.nextCall) (hwf : phase'.WF) (hf : s'.failures = s.failures)
    (hw : ∀ w ∈ s'.writes, w.call = n → σ.xid = some w.xid ∧ phase'.MayHaveRows) :
    SessionOk s' σ := by
  have hk := h.session k
  refine ⟨hx, fun c hc' => ?_, fun c hc' => ?_, fun c hc' => ?_, fun c hc' => ?_⟩ <;>
    rw [hσ] at hc' <;> cases hc'
  · rw [hn]
    exact hk.call_lt ⟨n, phase⟩ hc
  · exact hwf
  · exact hw
  · rw [hf]
    exact hk.failures ⟨n, phase⟩ hc

/-- A new call. -/
theorem SessionInv.start (h : SessionInv s) {request : AppendRequest}
    (hc : (s.sessions k).call = none) (hp : Starts request phase) :
    SessionInv { s.goto k s.nextCall phase with nextCall := s.nextCall + 1 } := by
  refine h.of_sessions (.start hc hp) rfl rfl (Nat.le_succ _)
    (h.update (k := k) rfl ⟨(h.session k).xid, ?_, ?_, ?_, ?_⟩ (fun k' _ => ?_)
      (fun x hx => .inl hx) ?_)
  · rintro _ ⟨⟩
    exact Nat.lt_succ_self _
  · rintro _ ⟨⟩
    cases hp <;> trivial
  · rintro _ ⟨⟩ w hw hn
    exact absurd (h.write_lt w hw) (Nat.not_lt.2 hn.ge)
  · rintro _ ⟨⟩ f hf hn
    exact absurd (h.failure_lt f hf) (Nat.not_lt.2 hn.ge)
  · exact (h.session k').frame (h.session k').xid (Nat.le_succ _) (fun _ => .inl) fun _ => .inl
  · rintro _ ⟨⟩
    exact .inr le_rfl

/-- A call that fails before its first statement. -/
theorem SessionInv.reject (h : SessionInv s) :
    SessionInv { s with nextCall := s.nextCall + 1, failures := ⟨s.nextCall, e⟩ :: s.failures } where
  log := h.log
  pruned := h.pruned
  session k := (h.session k).frame (h.session k).xid (Nat.le_succ _) (fun _ => .inl) fun f hf => by
    cases hf with
    | head => exact .inr fun c hc => ((h.session k).call_lt c hc).ne'
    | tail _ hf => exact .inl hf
  distinct := h.distinct
  write_lt w hw := Nat.lt_succ_of_lt (h.write_lt w hw)
  failure_lt f hf := by
    cases hf with
    | head => exact Nat.lt_succ_self _
    | tail _ hf => exact Nat.lt_succ_of_lt (h.failure_lt f hf)
  failed f hf w hw hn := by
    cases hf with
    | head => exact absurd (h.write_lt w hw) (Nat.not_lt.2 hn.ge)
    | tail _ hf => exact h.failed f hf w hw hn
  row := h.row
  ids := h.ids

/-- The transaction of a call claims its id. -/
theorem SessionInv.claim (h : SessionInv s) (hc : (s.sessions k).call = some ⟨n, .claim w⟩)
    (hx : (s.sessions k).xid = none) (hl : s.log.step .claim = some log) :
    SessionInv { s.setSession k { s.sessions k with
      xid := some s.log.xacts.nextXid, call := some ⟨n, .seedCheck w⟩ } with log } := by
  refine h.of_sessions (.claim (a := .error k) hc hx hl) rfl rfl le_rfl
    (h.update (k := k) rfl (h.session_next hc ?_ rfl rfl trivial rfl fun w' hw hn => ?_)
      (fun k' _ => (h.session k').frame (fun x hx' => ?_) le_rfl (fun _ => .inl) fun _ => .inl) ?_ ?_)
  · rintro _ ⟨⟩
    cases hl
    exact ⟨.head _, .head _⟩
  · exact ((h.session k).writes _ hc w' hw hn).2.elim
  · exact Log.Writing.step ((h.session k').xid x hx') (by simp) (by simp) hl
  · rintro _ ⟨⟩
    refine .inr fun k' hx' => ?_
    exact Nat.lt_irrefl _ (h.log.xacts.running_lt _ ((h.session k').xid _ hx').2)
  · rintro _ ⟨⟩
    exact .inl ⟨_, hc, rfl⟩

/-- The insert of a call draws an id. -/
theorem SessionInv.draw (h : SessionInv s)
    (hc : (s.sessions k).call = some ⟨n, .draw w (ev :: rest)⟩)
    (hx : (s.sessions k).xid = some x) (hl : s.log.step (.draw x) = some log) :
    SessionInv { s.goto k n (.place w s.log.nextId ev rest) with log } := by
  have writing : ∀ k' y, (s.sessions k').xid = some y → log.Writing y := fun k' y hy =>
    Log.Writing.step ((h.session k').xid y hy) (by simp) (by simp) hl
  refine h.of_sessions (.draw (a := .error k) hc hx hl) rfl rfl le_rfl
    (h.update (k := k) rfl (h.session_next hc (writing k) rfl rfl ?_ rfl fun w' hw hn => ?_)
      (fun k' _ => (h.session k').frame (writing k') le_rfl (fun _ => .inl) fun _ => .inl)
      (fun x hx => .inl hx) ?_)
  · exact (h.session k).phase _ hc
  · have ⟨h₁, h₂⟩ := (h.session k).writes _ hc w' hw hn
    exact ⟨h₁, CallPhase.MayHaveRows.place h₂⟩
  · rintro _ ⟨⟩
    exact .inl ⟨_, hc, rfl⟩

/-- The insert of a call places a row. -/
theorem SessionInv.insert (h : SessionInv s) {id now : ℕ}
    (hc : (s.sessions k).call = some ⟨n, .place w id ev rest⟩)
    (hu : s.uniqueCheck k ev = .free) (hx : (s.sessions k).xid = some x)
    (hl : s.log.step (.insert x id (ev.toNewEvent now)) = some log) :
    SessionInv { s.goto k n (.draw w rest) with log, writes := s.writes ++ [⟨n, ev, id, x⟩] } := by
  have hstep := StoreStep.insert (a := .error k) hc hu hx hl
  obtain ⟨he, hwf, hp⟩ := h.step_log hstep
  have hk := h.session k
  have writing : ∀ k' y, (s.sessions k').xid = some y → log.Writing y := fun k' y hy =>
    Log.Writing.step ((h.session k').xid y hy) (by simp) (by simp) hl
  have hss := h.update (k := k)
    (rfl : Store.sessions { s.goto k n (.draw w rest) with
      log, writes := s.writes ++ [⟨n, ev, id, x⟩] } = _)
    (h.session_next hc (writing k) rfl rfl ?_ rfl fun w' hw hn => ?_)
    (fun k' hne => (h.session k').frame (writing k') le_rfl (fun w' hw => ?_) fun _ => .inl)
    (fun x hx => .inl hx) ?_
  · simp only [Log.step, Option.ite_none_right_eq_some, Option.some.injEq] at hl
    obtain ⟨⟨-, -, hnew⟩, rfl⟩ := hl
    refine ⟨hwf, hp, hss.1, hss.2, fun w' hw => ?_, h.failure_lt, fun f hf w' hw hn => ?_,
      fun w' hw => ?_, ?_⟩
    · rcases List.mem_append.1 hw with hw | hw
      · exact h.write_lt w' hw
      · rw [List.mem_singleton.1 hw]
        exact hk.call_lt _ hc
    · rcases List.mem_append.1 hw with hw | hw
      · exact (h.failed f hf w' hw hn).ext he.xacts
      · rw [List.mem_singleton.1 hw] at hn
        exact absurd hn.symm (hk.failures _ hc f hf)
    · rcases List.mem_append.1 hw with hw | hw
      · exact h.row_ext he w' hw
      · rw [List.mem_singleton.1 hw]
        exact ⟨_, Log.mem_insertRow.2 (.inl rfl), rfl, rfl, rfl, rfl⟩
    · refine List.pairwise_append.2 ⟨h.ids, List.pairwise_singleton _ _, fun w₁ hw₁ w₂ hw₂ => ?_⟩
      obtain ⟨r, hr, hid, -⟩ := h.row w₁ hw₁
      rw [List.mem_singleton.1 hw₂]
      exact hid ▸ hnew r hr
  · exact (List.suffix_cons ev rest).trans (hk.phase _ hc)
  · rcases List.mem_append.1 hw with hw | hw
    · exact ⟨(hk.writes _ hc w' hw hn).1, CallPhase.WF.mayHaveRows (hk.phase _ hc)⟩
    · rw [List.mem_singleton.1 hw]
      exact ⟨hx, CallPhase.WF.mayHaveRows (hk.phase _ hc)⟩
  · rcases List.mem_append.1 hw with hw | hw
    · exact .inl hw
    · rw [List.mem_singleton.1 hw]
      exact .inr fun c hc' => (h.distinct k k' hne.symm).call _ c hc hc'
  · rintro _ ⟨⟩
    exact .inl ⟨_, hc, rfl⟩

/-- Every step of the store keeps the invariant of its sessions. -/
theorem SessionInv.step (h : SessionInv s) (hs : StoreStep s a s') : SessionInv s' := by
  cases hs with
  | archive archived =>
    exact h.of_sessions (.archive (a := a) archived) rfl rfl le_rfl
      ⟨fun k => (h.session k).frame (h.session k).xid le_rfl (fun _ => .inl) (fun _ => .inl),
        h.distinct⟩
  | @begin _ k hc =>
    exact h.closed (k := k) (.begin (a := a) hc) rfl hc (fun x hx => ⟨hx, rfl⟩)
      (fun k' _ => (h.session k').xid) rfl le_rfl (.inl rfl)
  | @leave _ k hx =>
    exact h.closed (k := k) (.leave (a := a) hx) rfl rfl (fun x hx => nomatch hx)
      (fun k' _ => (h.session k').xid) rfl le_rfl (.inl rfl)
  | @commit _ k x log hc hx hl =>
    exact h.closed (k := k) (.commit (a := a) hc hx hl) rfl rfl (fun x hx => nomatch hx)
      (fun k' hne y hy => h.writing_of_ne hl hx hne hy fun z hz => ⟨by simpa using hz.symm, by simp⟩)
      rfl le_rfl (.inl rfl)
  | @rollback _ k x log hc hx hl =>
    exact h.closed (k := k) (.rollback (a := a) hc hx hl) rfl rfl (fun x hx => nomatch hx)
      (fun k' hne y hy => h.writing_of_ne hl hx hne hy fun z hz => ⟨by simp, by simpa using hz.symm⟩)
      rfl le_rfl (.inl rfl)
  | start hc hp => exact h.start hc hp
  | reject => exact h.reject
  | goto hc hp => exact h.goto hc hp
  | claim hc hx hl => exact h.claim hc hx hl
  | draw hc hx hl => exact h.draw hc hx hl
  | insert hc hu hx hl => exact h.insert hc hu hx hl
  | @complete _ k n w hc =>
    exact h.closed (k := k) (.complete (a := a) hc) rfl rfl (fun x hx => ⟨hx, rfl⟩)
      (fun k' _ => (h.session k').xid) rfl le_rfl (.inl rfl)
  | @fail _ k c e hc hi he =>
    refine h.closed (k := k) (.fail (a := a) hc hi he) rfl rfl (fun x hx => ⟨hx, rfl⟩)
      (fun k' _ => (h.session k').xid) rfl le_rfl (.inr ⟨c, e, hc, rfl, fun w hw hn => ?_⟩)
    -- the call throws before its first row
    have := ((h.session k).writes c hc w hw hn).2
    obtain ⟨n, phase⟩ := c
    cases phase <;> first | exact this.elim | cases hi
  | @raise _ k c e inTx failed log hc he hl =>
    refine h.closed (k := k) (.raise (a := a) hc he hl) rfl rfl (fun x hx => nomatch hx)
      (fun k' hne y hy => ?_) rfl le_rfl (.inr ⟨c, e, hc, rfl, fun w hw hn => ?_⟩)
    · rcases abortLog_cases hl with ⟨-, rfl⟩ | ⟨x, hx, hl⟩
      · exact (h.session k').xid y hy
      · exact h.writing_of_ne hl hx hne hy fun z hz => ⟨by simp, by simpa using hz.symm⟩
    · have hx := ((h.session k).writes c hc w hw hn).1
      rw [hx] at hl
      exact Log.aborted_of_step h.log hl

end

end Store

end Kumiko
