import Kumiko.Library.Run

/-!
# The claim of a resume

`workflow-runner/handlers/resume-run.write.ts` and `pending-projection.ts` for one run. A resume reads its
suspension's row, then the events; it appends `workflow.resumed` at the version the stream has by then, so one
that has read the events earlier claims a suspension that another has consumed. Where the version is that of the
events read, every suspension is resumed at most once (`resumed_once_of_run`).
-/

namespace Kumiko

open Transition

/-! ## The stream of a run -/

/-- The step and the attempt that a suspension waits for. -/
abbrev SuspensionKey := ℕ × Option ℕ

/-- Reference: the event types of `workflow-system-events.ts`. -/
inductive RunEvent where
  | runStarted
  | waiting (stepIndex : ℕ)
  | waitingForEvent (stepIndex : ℕ)
  | retryScheduled (stepIndex attempt : ℕ)
  | resumed (key : SuspensionKey)
  | runCompleted
  | runFailed
  deriving DecidableEq

namespace RunEvent

/-- The suspension that an event is. -/
def suspension : RunEvent → Option SuspensionKey
  | waiting stepIndex | waitingForEvent stepIndex => some (stepIndex, none)
  | retryScheduled stepIndex attempt => some (stepIndex, some attempt)
  | runStarted | resumed _ | runCompleted | runFailed => none

def IsResumed (e : RunEvent) : Prop := ∃ key, e = resumed key

instance : (e : RunEvent) → Decidable e.IsResumed
  | resumed key => isTrue ⟨key, rfl⟩
  | runStarted => isFalse fun ⟨_, h⟩ => nomatch h
  | waiting _ => isFalse fun ⟨_, h⟩ => nomatch h
  | waitingForEvent _ => isFalse fun ⟨_, h⟩ => nomatch h
  | retryScheduled .. => isFalse fun ⟨_, h⟩ => nomatch h
  | runCompleted => isFalse fun ⟨_, h⟩ => nomatch h
  | runFailed => isFalse fun ⟨_, h⟩ => nomatch h

end RunEvent

/-- Reference: `isRunAlreadySettled`. -/
def isRunAlreadySettled (runEvents : List RunEvent) (key : SuspensionKey) : Bool :=
  runEvents.any fun
    | .runCompleted | .runFailed => true
    | .resumed resumed => resumed = key
    | _ => false

/-! ## The pending rows -/

/-- A row of the run, and where its suspension is in the stream. Reference: `workflowRunPendingTable`. -/
structure PendingRow where
  stepIndex : ℕ
  retryAttempt : Option ℕ
  /-- The awaited event has been found. -/
  triggered : Bool
  position : ℕ

def PendingRow.key (row : PendingRow) : SuspensionKey := (row.stepIndex, row.retryAttempt)

/-- Reference: `upsertPending`. -/
def upsertPending (row : PendingRow) (rows : List PendingRow) : List PendingRow :=
  match rows.find? (·.stepIndex = row.stepIndex) with
  | none => rows ++ [row]
  | some existing =>
    if existing.triggered then rows else rows.map fun r => if r.stepIndex = row.stepIndex then row else r

/-- Reference: `registerWorkflowRunPendingProjection`. -/
def applyPending (position : ℕ) (e : RunEvent) (rows : List PendingRow) : List PendingRow :=
  match e with
  | .waiting stepIndex | .waitingForEvent stepIndex => upsertPending ⟨stepIndex, none, false, position⟩ rows
  | .retryScheduled stepIndex attempt => upsertPending ⟨stepIndex, some attempt, false, position⟩ rows
  | .resumed _ | .runCompleted | .runFailed => []
  | .runStarted => rows

/-! ## Resumes -/

/-- Before which statement a resume is. -/
inductive ResumePhase where
  | fetch (stepIndex : ℕ)
  | load (row : PendingRow)
  | claim (row : PendingRow) (runEvents : List RunEvent)
  | insert (row : PendingRow) (version : ℕ)
  /-- The steps run in the transaction that holds the claim. -/
  | run (row : PendingRow) (appended : List RunEvent)

/-- The stream, the pending rows and how far their projection has come, who holds events that are not committed, the
resumes, and the suspensions that committed ones have consumed. -/
structure ResumeStore (n : ℕ) where
  stream : List RunEvent
  rows : List PendingRow
  processed : ℕ
  writer : Option (Fin n)
  phases : Fin n → Option ResumePhase
  consumed : List ℕ

inductive ResumeAct (n : ℕ) where
  /-- An event that no resume appends: of the start of the run, or a run that fails before a claim. -/
  | other (e : RunEvent)
  /-- The projection processes an event, perhaps once more. -/
  | project (position : ℕ)
  /-- The awaited event is found for a row. -/
  | wake (stepIndex : ℕ)
  | dispatch (k : Fin n) (stepIndex : ℕ)
  /-- The next statement of the resume. -/
  | advance (k : Fin n)
  /-- A step of the resumed pipeline appends an event. -/
  | append (k : Fin n) (e : RunEvent)
  | commit (k : Fin n)
  | rollback (k : Fin n)

namespace ResumeStore

variable {n : ℕ} (s : ResumeStore n)

def initial : ResumeStore n := ⟨[], [], 0, none, fun _ => none, []⟩

def setPhase (k : Fin n) (phase : Option ResumePhase) : ResumeStore n :=
  { s with phases := Function.update s.phases k phase }

/-- The next statement of a resume. Reference: `resumeRunHandler`, `buildTryAppendEvent`, `appendDomainEventCore`. -/
def advanceResume (k : Fin n) : ResumePhase → Option (ResumeStore n)
  | .fetch stepIndex => some (s.setPhase k ((s.rows.find? (·.stepIndex = stepIndex)).map .load))
  | .load row =>
    some (s.setPhase k (if isRunAlreadySettled s.stream row.key then none else some (.claim row s.stream)))
  | .claim row _ => some (s.setPhase k (some (.insert row s.stream.length)))
  | .insert row version =>
    if version ≠ s.stream.length then some (s.setPhase k none)
    else if s.writer.isSome then none
    else some { s.setPhase k (some (.run row [.resumed row.key])) with writer := some k }
  | .run .. => none

def step : ResumeAct n → Option (ResumeStore n)
  | .other e => if e.IsResumed ∨ s.writer.isSome then none else some { s with stream := s.stream ++ [e] }
  | .project position =>
    match s.stream[position]? with
    | some e =>
      if position ≤ s.processed then
        some { s with rows := applyPending position e s.rows, processed := max s.processed (position + 1) }
      else none
    | none => none
  | .wake stepIndex =>
    some { s with rows := s.rows.map fun r => if r.stepIndex = stepIndex then { r with triggered := true } else r }
  | .dispatch k stepIndex => if (s.phases k).isSome then none else some (s.setPhase k (some (.fetch stepIndex)))
  | .advance k => (s.phases k).bind (s.advanceResume k)
  | .append k e =>
    match s.phases k with
    | some (.run row appended) =>
      if e.IsResumed then none else some (s.setPhase k (some (.run row (appended ++ [e]))))
    | _ => none
  | .commit k =>
    match s.phases k with
    | some (.run row appended) =>
      some { s.setPhase k none with
        stream := s.stream ++ appended, writer := none, consumed := s.consumed ++ [row.position] }
    | _ => none
  | .rollback k => some { s.setPhase k none with writer := if s.writer = some k then none else s.writer }

/-! ## What every run maintains -/

/-- A resume reads the version of its claim while the stream is what it has loaded. -/
def ClaimsLoaded (s : ResumeStore n) : ResumeAct n → Prop
  | .advance k => ∀ row runEvents, s.phases k = some (.claim row runEvents) → s.stream = runEvents
  | _ => True

end ResumeStore

/-- The row is of the suspension at its position. -/
def PendingRow.Of (stream : List RunEvent) (row : PendingRow) : Prop :=
  stream[row.position]?.bind RunEvent.suspension = some row.key

/-- What a resume has read of the stream. -/
def ResumePhase.Ok (stream : List RunEvent) (holds : Prop) : ResumePhase → Prop
  | .fetch _ => True
  | .load row => row.Of stream
  | .claim row runEvents => row.Of stream ∧ .resumed row.key ∉ runEvents
  | .insert row version => row.Of stream ∧ version ≤ stream.length ∧ .resumed row.key ∉ stream.take version
  | .run row appended => row.Of stream ∧ holds ∧ .resumed row.key ∉ stream ∧ .resumed row.key ∈ appended

namespace ResumeStore

variable {n : ℕ}

structure ResumeInv (s : ResumeStore n) : Prop where
  rows : ∀ row ∈ s.rows, row.Of s.stream
  phases : ∀ k phase, s.phases k = some phase → phase.Ok s.stream (s.writer = some k)
  /-- What is consumed has been resumed in the stream. -/
  consumed : ∀ position ∈ s.consumed, ∃ key,
    s.stream[position]?.bind RunEvent.suspension = some key ∧ .resumed key ∈ s.stream
  nodup : s.consumed.Nodup

end ResumeStore

/-! ## Rows and streams -/

section
variable {stream more : List RunEvent} {row : PendingRow} {rows : List PendingRow} {e : RunEvent} {position : ℕ}
  {key : SuspensionKey} {phase : ResumePhase} {holds : Prop}

theorem suspension_append (h : stream[position]?.bind RunEvent.suspension = some key) :
    (stream ++ more)[position]?.bind RunEvent.suspension = some key := by
  obtain ⟨e, he, hkey⟩ := Option.bind_eq_some_iff.1 h
  obtain ⟨hlt, -⟩ := List.getElem?_eq_some_iff.1 he
  rw [List.getElem?_append_left hlt, he, Option.bind_some, hkey]

/-- A stream that is not settled for a suspension has not resumed it. -/
theorem not_mem_of_settled (h : isRunAlreadySettled stream key = false) : .resumed key ∉ stream := by
  intro hmem
  have hnone := List.any_eq_false.1 h _ hmem
  exact hnone (decide_eq_true rfl)

theorem mem_upsertPending {r : PendingRow} (h : r ∈ upsertPending row rows) : r = row ∨ r ∈ rows := by
  unfold upsertPending at h
  cases hfind : rows.find? (·.stepIndex = row.stepIndex) with
  | none =>
    simp only [hfind] at h
    rcases List.mem_append.1 h with h | h
    · exact .inr h
    · exact .inl (List.mem_singleton.1 h)
  | some existing =>
    simp only [hfind] at h
    split at h
    · exact .inr h
    · obtain ⟨x, hx, rfl⟩ := List.mem_map.1 h
      by_cases hstep : x.stepIndex = row.stepIndex
      · rw [if_pos hstep]; exact .inl rfl
      · rw [if_neg hstep]; exact .inr hx

/-- Every row that the projection leaves is of a suspension of the stream. -/
theorem of_applyPending (hrows : ∀ row ∈ rows, row.Of stream) (he : stream[position]? = some e) :
    ∀ row ∈ applyPending position e rows, row.Of stream := by
  have hnew : ∀ new : PendingRow, new.position = position → e.suspension = some new.key →
      ∀ row ∈ upsertPending new rows, row.Of stream := by
    intro new hposition hkey row hrow
    rcases mem_upsertPending hrow with rfl | hrow
    · rw [PendingRow.Of, hposition, he, Option.bind_some, hkey]
    · exact hrows row hrow
  cases e with
  | runStarted => exact hrows
  | waiting stepIndex => exact hnew _ rfl rfl
  | waitingForEvent stepIndex => exact hnew _ rfl rfl
  | retryScheduled stepIndex attempt => exact hnew _ rfl rfl
  | resumed key => exact fun row hrow => nomatch hrow
  | runCompleted => exact fun row hrow => nomatch hrow
  | runFailed => exact fun row hrow => nomatch hrow

theorem ResumePhase.Ok.mono {holds' : Prop} (h : phase.Ok stream holds) (himp : holds → holds') :
    phase.Ok stream holds' := by
  cases phase with
  | fetch stepIndex => trivial
  | load row => exact h
  | claim row runEvents => exact h
  | insert row version => exact h
  | run row appended => exact ⟨h.1, himp h.2.1, h.2.2⟩

/-- What was read of the stream is read of it still when it has grown, unless events of the resume were held. -/
theorem ResumePhase.Ok.append (h : phase.Ok stream holds) (hfree : ¬holds) : phase.Ok (stream ++ more) holds := by
  cases phase with
  | fetch stepIndex => trivial
  | load row => exact suspension_append h
  | claim row runEvents => exact ⟨suspension_append h.1, h.2⟩
  | insert row version =>
    obtain ⟨hrow, hle, hnot⟩ := h
    refine ⟨suspension_append hrow, ?_, ?_⟩
    · rw [List.length_append]
      omega
    · rwa [List.take_append_of_le_length hle]
  | run row appended => exact absurd h.2.1 hfree

end

/-! ## Steps -/

namespace ResumeStore

variable {n : ℕ} {s s' : ResumeStore n} {k k' : Fin n} {phase : ResumePhase}

/-- A step of one resume that leaves the stream. -/
theorem ResumeInv.setPhase {phase' : Option ResumePhase} {writer : Option (Fin n)} (h : ResumeInv s)
    (hok : ∀ p, phase' = some p → p.Ok s.stream (writer = some k))
    (hothers : ∀ k' p, k' ≠ k → s.phases k' = some p → p.Ok s.stream (writer = some k')) :
    ResumeInv { s.setPhase k phase' with writer } := by
  refine ⟨h.rows, fun k' p hp => ?_, h.consumed, h.nodup⟩
  have hp : Function.update s.phases k phase' k' = some p := hp
  rcases eq_or_ne k' k with rfl | hne
  · rw [Function.update_self] at hp
    exact hok p hp
  · rw [Function.update_of_ne hne] at hp
    exact hothers k' p hne hp

/-- A claim is appended to the stream it has checked. -/
theorem ResumeInv.advance (h : ResumeInv s) (hphase : s.phases k = some phase) (hok : s.ClaimsLoaded (.advance k))
    (hs : s.advanceResume k phase = some s') : ResumeInv s' := by
  have hread := h.phases k phase hphase
  have hothers : ∀ k' p, k' ≠ k → s.phases k' = some p → p.Ok s.stream (s.writer = some k') :=
    fun k' p _ hp => h.phases k' p hp
  cases phase with
  | fetch stepIndex =>
    cases hs
    refine h.setPhase (fun p hp => ?_) hothers
    obtain ⟨row, hrow, rfl⟩ := Option.map_eq_some_iff.1 hp
    exact h.rows row (List.mem_of_find?_eq_some hrow)
  | load row =>
    cases hs
    refine h.setPhase (fun p hp => ?_) hothers
    cases hsettled : isRunAlreadySettled s.stream row.key with
    | true => rw [hsettled] at hp; cases hp
    | false =>
      rw [hsettled] at hp
      cases hp
      exact ⟨hread, not_mem_of_settled hsettled⟩
  | claim row runEvents =>
    cases hs
    refine h.setPhase (fun p hp => ?_) hothers
    cases hp
    obtain ⟨hrow, hnot⟩ := hread
    -- The version is that of the events that were checked.
    have hloaded : s.stream = runEvents := hok row runEvents hphase
    refine ⟨hrow, Nat.le_refl _, ?_⟩
    rw [List.take_length, hloaded]
    exact hnot
  | insert row version =>
    obtain ⟨hrow, -, hnot⟩ := hread
    rw [advanceResume] at hs
    split at hs
    · cases hs
      exact h.setPhase (fun p hp => nomatch hp) hothers
    · next hversion =>
      split at hs
      · cases hs
      · next hfree =>
        cases hs
        have hnone : s.writer = none := Option.not_isSome_iff_eq_none.1 hfree
        refine h.setPhase (fun p hp => ?_) fun k' p hne hp => ?_
        · cases hp
          refine ⟨hrow, rfl, ?_, List.mem_singleton.2 rfl⟩
          rwa [Decidable.not_not.1 hversion, List.take_length] at hnot
        · refine (h.phases k' p hp).mono fun hholds => ?_
          rw [hnone] at hholds
          cases hholds
  | run row appended => cases hs

/-- Events at the end of the stream, where no resume holds some of its own. -/
theorem ResumeInv.other {e : RunEvent} (h : ResumeInv s) (hfree : s.writer = none) :
    ResumeInv { s with stream := s.stream ++ [e] } := by
  refine ⟨fun row hrow => suspension_append (h.rows row hrow), fun k p hp => ?_, fun position hposition => ?_, h.nodup⟩
  · exact (h.phases k p hp).append fun hholds => by rw [hfree] at hholds; cases hholds
  · obtain ⟨key, hkey, hmem⟩ := h.consumed position hposition
    exact ⟨key, suspension_append hkey, List.mem_append.2 (.inl hmem)⟩

/-- A commit consumes a suspension that no committed resume has consumed. -/
theorem ResumeInv.commit {row : PendingRow} {appended : List RunEvent} (h : ResumeInv s)
    (hphase : s.phases k = some (.run row appended)) :
    ResumeInv { s.setPhase k none with
      stream := s.stream ++ appended, writer := none, consumed := s.consumed ++ [row.position] } := by
  obtain ⟨hrow, hholds, hnot, hmem⟩ := h.phases k _ hphase
  refine ⟨fun r hr => suspension_append (h.rows r hr), fun k' p hp => ?_, fun position hposition => ?_, ?_⟩
  · have hp : Function.update s.phases k none k' = some p := hp
    rcases eq_or_ne k' k with rfl | hne
    · rw [Function.update_self] at hp
      cases hp
    · rw [Function.update_of_ne hne] at hp
      have hfree : ¬s.writer = some k' := fun heq => hne (Option.some.inj (heq.symm.trans hholds))
      exact ((h.phases k' p hp).append hfree).mono fun hholds' => absurd hholds' hfree
  · rcases List.mem_append.1 hposition with hposition | hposition
    · obtain ⟨key, hkey, hin⟩ := h.consumed position hposition
      exact ⟨key, suspension_append hkey, List.mem_append.2 (.inl hin)⟩
    · obtain rfl := List.mem_singleton.1 hposition
      exact ⟨row.key, suspension_append hrow, List.mem_append.2 (.inr hmem)⟩
  · refine List.nodup_append.2 ⟨h.nodup, List.pairwise_singleton .., fun position hposition _ hlast heq => ?_⟩
    obtain rfl := List.mem_singleton.1 hlast
    obtain ⟨key, hkey, hin⟩ := h.consumed position hposition
    rw [heq] at hkey
    cases hkey.symm.trans hrow
    exact hnot hin

/-- Every step whose claims are of the loaded stream keeps the invariant. -/
theorem ResumeInv.step {a : ResumeAct n} (h : ResumeInv s) (hok : s.ClaimsLoaded a) (hs : s.step a = some s') :
    ResumeInv s' := by
  cases a with
  | other e =>
    rw [ResumeStore.step] at hs
    split at hs
    · cases hs
    · next hfree =>
      cases hs
      exact h.other (Option.not_isSome_iff_eq_none.1 fun hsome => hfree (.inr hsome))
  | project position =>
    rw [ResumeStore.step] at hs
    cases he : s.stream[position]? with
    | none => simp only [he] at hs; cases hs
    | some e =>
      simp only [he] at hs
      split at hs
      · cases hs
        exact ⟨of_applyPending h.rows he, h.phases, h.consumed, h.nodup⟩
      · cases hs
  | wake stepIndex =>
    cases hs
    refine ⟨fun row hrow => ?_, h.phases, h.consumed, h.nodup⟩
    obtain ⟨r, hr, rfl⟩ := List.mem_map.1 hrow
    split
    · exact h.rows r hr
    · exact h.rows r hr
  | dispatch k stepIndex =>
    rw [ResumeStore.step] at hs
    split at hs
    · cases hs
    · cases hs
      refine h.setPhase (fun p hp => ?_) fun k' p _ hp => h.phases k' p hp
      cases hp
      trivial
  | advance k =>
    obtain ⟨phase, hphase, hs⟩ := Option.bind_eq_some_iff.1 hs
    exact h.advance hphase hok hs
  | append k e =>
    rw [ResumeStore.step] at hs
    split at hs
    · next row appended hphase =>
      split at hs
      · cases hs
      · cases hs
        obtain ⟨hrow, hholds, hnot, hmem⟩ := h.phases k _ hphase
        refine h.setPhase (fun p hp => ?_) fun k' p _ hp => h.phases k' p hp
        cases hp
        exact ⟨hrow, hholds, hnot, List.mem_append.2 (.inl hmem)⟩
    · cases hs
  | commit k =>
    rw [ResumeStore.step] at hs
    split at hs
    · next row appended hphase =>
      cases hs
      exact h.commit hphase
    · cases hs
  | rollback k =>
    cases hs
    refine h.setPhase (fun p hp => nomatch hp) fun k' p hne hp => ?_
    refine (h.phases k' p hp).mono fun hholds => ?_
    rw [hholds, if_neg fun heq => hne (Option.some.inj heq)]

/-- No event and no row. -/
theorem resumeInv_initial : ResumeInv (initial : ResumeStore n) :=
  ⟨fun _ h => (nomatch h), fun _ _ h => (nomatch h), fun _ h => (nomatch h), List.nodup_nil⟩

/-- Where every resume claims at the version of the events it has read, no suspension is consumed by two committed
resumes; and the steps after it run in one transaction at a time, and in none once it is consumed. -/
theorem resumed_once_of_run (hr : Run ResumeStore.step ClaimsLoaded (initial : ResumeStore n) s) :
    s.consumed.Nodup ∧ ∀ k row appended, s.phases k = some (.run row appended) →
      row.position ∉ s.consumed ∧ ∀ k' row' appended', s.phases k' = some (.run row' appended') → k' = k := by
  have hinv : ResumeInv s := hr.invariant resumeInv_initial fun _ _ _ h hok hs => h.step hok hs
  refine ⟨hinv.nodup, fun k row appended hphase => ?_⟩
  obtain ⟨hrow, hholds, hnot, -⟩ := hinv.phases k _ hphase
  refine ⟨fun hmem => ?_, fun k' row' appended' hphase' => ?_⟩
  · obtain ⟨key, hkey, hin⟩ := hinv.consumed row.position hmem
    cases hkey.symm.trans hrow
    exact hnot hin
  · obtain ⟨-, hholds', -⟩ := hinv.phases k' _ hphase'
    exact Option.some.inj (hholds'.symm.trans hholds)

/-! ## Runs -/

/-- The condition, evaluated. -/
def claimsLoadedB (s : ResumeStore n) : ResumeAct n → Bool
  | .advance k => match s.phases k with
    | some (.claim _ runEvents) => s.stream = runEvents
    | _ => true
  | _ => true

theorem claimsLoaded_of_check {a : ResumeAct n} (h : claimsLoadedB s a = true) : s.ClaimsLoaded a := by
  cases a with
  | advance k =>
    intro row runEvents hphase
    rw [claimsLoadedB, hphase] at h
    exact of_decide_eq_true h
  | other e => trivial
  | project position => trivial
  | wake stepIndex => trivial
  | dispatch k stepIndex => trivial
  | append k e => trivial
  | commit k => trivial
  | rollback k => trivial

/-- A run that waits at its first step. -/
def waitingActs : List (ResumeAct 2) := [.other .runStarted, .other (.waiting 0), .project 0, .project 1]

/-- Two dispatches of one row: the second waits for the first, and finds its version taken. -/
theorem resumed_once_of_run_twoDispatches : ∃ s : ResumeStore 2,
    s.stream = [.runStarted, .waiting 0, .resumed (0, none), .waiting 1] ∧ s.consumed.Nodup := by
  obtain ⟨s, hr, hs⟩ := exists_run_of_execOk ResumeStore.step claimsLoadedB (initial (n := 2))
    (waitingActs ++ [.dispatch 0 0, .advance 0, .advance 0, .dispatch 1 0, .advance 1, .advance 1, .advance 0,
      .advance 1, .advance 0, .append 0 (.waiting 1), .commit 0, .advance 1])
    (fun s => decide (s.stream = [.runStarted, .waiting 0, .resumed (0, none), .waiting 1]))
    (fun s a h => claimsLoaded_of_check h) (by decide +kernel) (by decide +kernel)
  exact ⟨s, of_decide_eq_true hs, (resumed_once_of_run hr).1⟩

/-- A resume that has read the run before another one commits claims the suspension once more. -/
theorem stale_claim_resumes_twice : ¬∀ s : ResumeStore 2,
    Run ResumeStore.step (fun _ _ => True) (initial (n := 2)) s → s.consumed.Nodup := by
  intro h
  obtain ⟨s, hr, hs⟩ := exists_run_of_exec ResumeStore.step (initial (n := 2))
    (waitingActs ++ [.dispatch 0 0, .advance 0, .advance 0, .dispatch 1 0, .advance 1, .advance 1, .advance 1,
      .advance 1, .append 1 (.waiting 1), .commit 1, .advance 0, .advance 0, .append 0 (.waiting 1), .commit 0])
    (fun s => decide (s.consumed = [1, 1])) (by decide +kernel)
  have hnodup := h s hr
  rw [of_decide_eq_true hs] at hnodup
  exact absurd hnodup (by decide)

end ResumeStore

end Kumiko
