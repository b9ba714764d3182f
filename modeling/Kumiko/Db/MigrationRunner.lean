import Mathlib.Data.List.Induction
import Kumiko.Library.Run

/-!
# The migration runner

`runMigrations` of `db/migrate-runner.ts`, for any number of runs on one database. A run takes an advisory lock
of its session, reads the tracking table and executes each file that is not recorded in a transaction that
records it. A statement succeeds, fails, or takes the session with it.

What a statement does to the schema is left open. A file may hold a `COMMIT` of its own, and then the rest of it
does not run in the runner's transaction.
-/

namespace Kumiko

open Transition

/-! ## Files, tracking rows and runs -/

/-- A statement that opens or ends a transaction. -/
inductive TransactionControl where
  /-- Without effect where one is open. -/
  | start
  | commit
  | rollback

/-- Reference: `Migration`. -/
structure Migration where
  id : String
  checksum : String
  statements : List String
  deriving DecidableEq

/-- A row of `_kumiko_migrations`. Reference: `AppliedMigration`. -/
structure AppliedMigration where
  id : String
  checksum : String
  deriving DecidableEq

def Migration.row (m : Migration) : AppliedMigration := ⟨m.id, m.checksum⟩

/-- A statement of a file that took effect. -/
structure StatementExecution where
  run : ℕ
  id : String
  statement : String
  deriving DecidableEq

/-- The statements of a file as a run executes them. -/
def Migration.executions (m : Migration) (r : ℕ) : List StatementExecution :=
  m.statements.map fun stmt => ⟨r, m.id, stmt⟩

/-- What an open transaction has done. -/
structure OpenTransaction where
  executed : List StatementExecution
  inserted : List AppliedMigration

/-- How a call ends. -/
inductive MigrationOutcome where
  /-- `ApplyResult` -/
  | success (applied skipped : List String)
  /-- `MigrationChecksumMismatchError` -/
  | checksumMismatch (migrationId expected actual : String)
  /-- The error of a statement. -/
  | failed
  /-- The session is gone. -/
  | lost
  deriving DecidableEq

/-- The statement a run waits for. -/
inductive MigrationPhase where
  | reserve
  | setTimeout
  | createTable
  | lock
  | fetchApplied
  | begin (m : Migration) (rest : List Migration)
  | scope (m : Migration) (rest : List Migration)
  | statement (m : Migration) (stmt : String) (pending : List String) (rest : List Migration)
  | insert (m : Migration) (rest : List Migration)
  | commit (m : Migration) (rest : List Migration)
  | rollback
  | unlock (outcome : MigrationOutcome)
  | resetTimeout (outcome : MigrationOutcome)
  | ended (outcome : MigrationOutcome)
  deriving DecidableEq

/-- A call with its session. -/
structure MigrationRun where
  phase : MigrationPhase
  /-- What `fetchAppliedFrom` read; the ids are a primary key. -/
  applied : List AppliedMigration
  appliedIds : List String
  skippedIds : List String
  tx : Option OpenTransaction

/-- The database with the calls made on it. -/
structure MigrationState where
  tracking : List AppliedMigration
  /-- The statements of files that are committed, in this order. -/
  committed : List StatementExecution
  /-- The run whose session holds the advisory lock. -/
  lock : Option ℕ
  runs : ℕ → MigrationRun

/-- A statement of a run succeeds, fails, or is the last of its session, with or without its effect. -/
inductive MigrationAct where
  | succeed (r : ℕ)
  | fail (r : ℕ)
  | lose (r : ℕ) (applied : Bool)

/-! ## The runner -/

namespace MigrationRun

def start : MigrationRun := ⟨.reserve, [], [], [], none⟩

/-- The loop over the files up to the next one to apply. -/
def nextFile : List Migration → MigrationRun → MigrationRun
  | [], run => { run with phase := .unlock (.success run.appliedIds run.skippedIds) }
  | m :: rest, run =>
    match run.applied.find? (·.id == m.id) with
    | none => { run with phase := .begin m rest }
    | some prev =>
      if prev.checksum ≠ m.checksum then
        { run with phase := .unlock (.checksumMismatch m.id prev.checksum m.checksum) }
      else nextFile rest { run with skippedIds := run.skippedIds ++ [m.id] }

/-- The next statement of a file, or its tracking row. -/
def nextStatement (m : Migration) (rest : List Migration) : List String → MigrationPhase
  | [] => .insert m rest
  | stmt :: pending => .statement m stmt pending rest

/-- What the call does when its statement has succeeded. -/
def advance (files : List Migration) (tracking : List AppliedMigration) (run : MigrationRun) : MigrationRun :=
  match run.phase with
  | .reserve => { run with phase := .setTimeout }
  | .setTimeout => { run with phase := .createTable }
  | .createTable => { run with phase := .lock }
  | .lock => { run with phase := .fetchApplied }
  | .fetchApplied => nextFile files { run with applied := tracking }
  | .begin m rest => { run with phase := .scope m rest }
  | .scope m rest => { run with phase := nextStatement m rest m.statements }
  | .statement m _ pending rest => { run with phase := nextStatement m rest pending }
  | .insert m rest => { run with phase := .commit m rest }
  | .commit m rest => nextFile rest { run with appliedIds := run.appliedIds ++ [m.id] }
  | .rollback => { run with phase := .unlock .failed }
  | .unlock outcome => { run with phase := .resetTimeout outcome }
  | .resetTimeout outcome => { run with phase := .ended outcome }
  | .ended _ => run

/-- What the call does when its statement has failed on a session that goes on; the statements that only fail
with their session have no such step. -/
def abort (run : MigrationRun) : Option MigrationRun :=
  match run.phase with
  | .reserve => some { run with phase := .ended .failed }
  | .setTimeout | .createTable | .lock => some { run with phase := .resetTimeout .failed }
  | .fetchApplied | .begin _ _ => some { run with phase := .unlock .failed }
  | .scope _ _ | .statement _ _ _ _ | .insert _ _ | .commit _ _ => some { run with phase := .rollback, tx := none }
  | .resetTimeout outcome => some { run with phase := .ended outcome }
  | .rollback | .unlock _ | .ended _ => none

/-- The call with its session gone: what comes behind the outcome fails unheard. -/
def abandon (run : MigrationRun) : Option MigrationRun :=
  match run.phase with
  | .ended _ => none
  | .unlock outcome | .resetTimeout outcome => some { run with phase := .ended outcome, tx := none }
  | _ => some { run with phase := .ended .lost, tx := none }

end MigrationRun

namespace MigrationState

variable (control : String → Option TransactionControl) (files : ℕ → List Migration) (s : MigrationState) (r : ℕ)

def initial : MigrationState := ⟨[], [], none, fun _ => .start⟩

def setRun (run : MigrationRun) : MigrationState := { s with runs := Function.update s.runs r run }

def setTx (tx : Option OpenTransaction) : MigrationState := s.setRun r { s.runs r with tx := tx }

/-- `COMMIT`; without a transaction it does nothing. -/
def commitTx : MigrationState :=
  match (s.runs r).tx with
  | none => s
  | some tx =>
    { s.setTx r none with tracking := s.tracking ++ tx.inserted, committed := s.committed ++ tx.executed }

/-- A statement of a file, in the transaction or on its own. -/
def execute (e : StatementExecution) : MigrationState :=
  match control e.statement, (s.runs r).tx with
  | some .commit, _ => s.commitTx r
  | some .rollback, _ => s.setTx r none
  | some .start, none => s.setTx r (some ⟨[e], []⟩)
  | none, none => { s with committed := s.committed ++ [e] }
  | _, some tx => s.setTx r (some { tx with executed := tx.executed ++ [e] })

/-- The tracking row, where its id is free. -/
def insertRow (row : AppliedMigration) : Option MigrationState :=
  if (s.tracking.map AppliedMigration.id).contains row.id then none
  else
    match (s.runs r).tx with
    | none => some { s with tracking := s.tracking ++ [row] }
    | some tx =>
      if (tx.inserted.map AppliedMigration.id).contains row.id then none
      else some (s.setTx r (some { tx with inserted := tx.inserted ++ [row] }))

/-- What the statement a run waits for does in the database; `none` while it cannot succeed. -/
def effect : Option MigrationState :=
  match (s.runs r).phase with
  | .lock => if s.lock = none then some { s with lock := some r } else none
  | .begin _ _ => some (s.setTx r (some ⟨[], []⟩))
  | .statement m stmt _ _ => some (s.execute control r ⟨r, m.id, stmt⟩)
  | .insert m _ => s.insertRow r m.row
  | .commit _ _ => some (s.commitTx r)
  | .rollback => some (s.setTx r none)
  | .unlock _ => some { s with lock := if s.lock = some r then none else s.lock }
  | .ended _ => none
  | _ => some s

/-- A session that ends takes its lock along. -/
def closeSession (run : MigrationRun) : MigrationState :=
  { s.setRun r run with lock := if s.lock = some r then none else s.lock }

def step : MigrationAct → Option MigrationState
  | .succeed r => (s.effect control r).map fun s' => s'.setRun r ((s'.runs r).advance (files r) s'.tracking)
  | .fail r => (s.runs r).abort.map fun run => s.setRun r run
  | .lose r applied =>
    (if applied then s.effect control r else some s).bind fun s' =>
      (s'.runs r).abandon.map fun run => s'.closeSession r run

end MigrationState

/-! ## What a run keeps -/

/-- Files in the order they were applied, with the run that applied each. -/
abbrev MigrationHistory := List (ℕ × Migration)

namespace MigrationHistory

variable (history : MigrationHistory)

def rows : List AppliedMigration := history.map fun entry => entry.2.row

def ids : List String := history.map fun entry => entry.2.id

def executions : List StatementExecution := history.flatMap fun entry => entry.2.executions entry.1

/-- Each file stands in its run's list behind files that are recorded before it. -/
def Ordered (files : ℕ → List Migration) : Prop :=
  ∀ pre r m post, history = pre ++ (r, m) :: post →
    ∃ before after, files r = before ++ m :: after ∧ ∀ m' ∈ before, m'.id ∈ ids pre

end MigrationHistory

open MigrationHistory

/-- What is committed is whole files, each once and with its tracking row. -/
structure InStep (history : MigrationHistory) (s : MigrationState) : Prop where
  tracking : s.tracking = rows history
  committed : s.committed = executions history
  nodup : (ids history).Nodup

/-- What an outcome says of the run's files: they are all recorded as they are, or one was recorded with another
checksum before the run applied anything, and the run applied only files in front of that one. -/
def OutcomeOk (files : List Migration) (history : MigrationHistory) (r : ℕ) : MigrationOutcome → Prop
  | .success _ _ => ∀ m ∈ files, m.row ∈ rows history
  | .checksumMismatch migrationId expected actual => expected ≠ actual ∧
      ∃ before m after pre post, files = before ++ m :: after ∧ m.row = ⟨migrationId, actual⟩ ∧
        history = pre ++ post ∧ ⟨migrationId, expected⟩ ∈ rows pre ∧ (∀ m', (r, m') ∉ pre) ∧
        ∀ m', (r, m') ∈ history → m' ∈ before
  | .failed | .lost => True

/-- The runs keep the tracking table and the schema in step, and apply their files in order. -/
structure MigrationsSafe (files : ℕ → List Migration) (s : MigrationState) : Prop where
  applied : ∃ history : MigrationHistory, InStep history s ∧ history.Ordered files ∧
    (∀ r outcome, (s.runs r).phase = .ended outcome → OutcomeOk (files r) history r outcome) ∧
    ∀ order : List String, order.Nodup → (∀ r, (files r).map Migration.id <+: order) →
      ids history <+: order ∧ ∀ r migrationId expected actual,
        (s.runs r).phase = .ended (.checksumMismatch migrationId expected actual) → ∀ m, (r, m) ∉ history

/-! ## The invariant -/

/-- The run's session holds the lock while it waits for this statement. -/
def MigrationPhase.holdsLock : MigrationPhase → Bool
  | .reserve | .setTimeout | .createTable | .lock | .resetTimeout _ | .ended _ => false
  | _ => true

/-- How far a run is in its list, and what it read under the lock. -/
structure Progress (files : List Migration) (history : MigrationHistory) (r : ℕ) (applied : List AppliedMigration)
    (before todo : List Migration) : Prop where
  split : files = before ++ todo
  recorded : ∀ m ∈ before, m.row ∈ rows history
  own : ∀ m, (r, m) ∈ history → m ∈ before
  read : ∃ pre post, history = pre ++ post ∧ applied = rows pre ∧ ∀ m, (r, m) ∉ pre

/-- The transaction of a run at each statement. -/
def RunOk (files : List Migration) (history : MigrationHistory) (r : ℕ) (run : MigrationRun) : Prop :=
  match run.phase with
  | .reserve | .setTimeout | .createTable | .lock | .fetchApplied => run.tx = none ∧ ∀ m, (r, m) ∉ history
  | .begin m rest => run.tx = none ∧ ∃ before, Progress files history r run.applied before (m :: rest)
  | .scope m rest => run.tx = some ⟨[], []⟩ ∧ ∃ before, Progress files history r run.applied before (m :: rest)
  | .statement m stmt pending rest =>
    (∃ done, m.statements = done ++ stmt :: pending ∧ run.tx = some ⟨done.map (⟨r, m.id, ·⟩), []⟩) ∧
      ∃ before, Progress files history r run.applied before (m :: rest)
  | .insert m rest =>
    run.tx = some ⟨m.executions r, []⟩ ∧ ∃ before, Progress files history r run.applied before (m :: rest)
  | .commit m rest =>
    (run.tx = some ⟨m.executions r, [m.row]⟩ ∧ m.id ∉ ids history) ∧
      ∃ before, Progress files history r run.applied before (m :: rest)
  | .rollback => run.tx = none
  | .unlock outcome | .resetTimeout outcome | .ended outcome =>
    run.tx = none ∧ OutcomeOk files history r outcome

structure MigrationInv (files : ℕ → List Migration) (history : MigrationHistory) (s : MigrationState) : Prop where
  inStep : InStep history s
  ordered : history.Ordered files
  lock : ∀ r, (s.runs r).phase.holdsLock = true → s.lock = some r
  run : ∀ r, RunOk (files r) history r (s.runs r)

section

variable {files : List Migration} {history : MigrationHistory} {r r' : ℕ} {run : MigrationRun}
  {before todo rest : List Migration} {m : Migration}

theorem mem_rows_append {row : AppliedMigration} {post : MigrationHistory} (h : row ∈ rows history) :
    row ∈ rows (history ++ post) := by
  rw [rows, List.map_append]
  exact List.mem_append_left _ h

/-- A history grows by a file whose predecessors are recorded. -/
theorem MigrationHistory.Ordered.concat {files : ℕ → List Migration} (h : history.Ordered files)
    (hm : ∃ before after, files r = before ++ m :: after ∧ ∀ m' ∈ before, m'.id ∈ ids history) :
    MigrationHistory.Ordered (history ++ [(r, m)]) files := by
  intro pre r' m' post heq
  rcases List.eq_nil_or_concat post with rfl | ⟨post', last, rfl⟩
  · obtain ⟨rfl, hlast⟩ := List.append_inj' heq rfl
    cases hlast
    exact hm
  · have hinit : history ++ [(r, m)] = (pre ++ (r', m') :: post') ++ [last] := by
      rw [heq, List.append_assoc, List.cons_append, List.concat_eq_append]
    exact h pre r' m' post' (List.append_inj' hinit rfl).1

/-- The loop goes on over files that are recorded as they are. -/
theorem runOk_nextFile (h : Progress files history r run.applied before todo) (htx : run.tx = none) :
    RunOk files history r (run.nextFile todo) := by
  induction todo generalizing run before with
  | nil =>
    refine ⟨htx, fun m hm => h.recorded m ?_⟩
    rw [h.split, List.append_nil] at hm
    exact hm
  | cons m rest ih =>
    rw [MigrationRun.nextFile]
    obtain ⟨pre, post, hhistory, hread, hown⟩ := h.read
    cases hfind : run.applied.find? (·.id == m.id) with
    | none => exact ⟨htx, before, h⟩
    | some prev =>
      have hprev : prev ∈ rows pre := hread ▸ List.mem_of_find?_eq_some hfind
      have hid : prev.id = m.id := by simpa using List.find?_some hfind
      dsimp only
      split
      · next hne =>
        refine ⟨htx, hne, before, m, rest, pre, post, h.split, rfl, hhistory, ?_, hown, h.own⟩
        rw [← hid]
        exact hprev
      · next heq =>
        have hrow : m.row ∈ rows history := by
          rw [hhistory, Migration.row, ← hid, ← not_not.1 heq]
          exact mem_rows_append hprev
        have hskipped : Progress files history r run.applied (before ++ [m]) rest := by
          refine ⟨?_, fun m' hm' => ?_, fun m' hm' => List.mem_append_left _ (h.own m' hm'), h.read⟩
          · rw [h.split, List.append_assoc, List.singleton_append]
          · rcases List.mem_append.1 hm' with hm' | hm'
            · exact h.recorded m' hm'
            · cases List.mem_singleton.1 hm'
              exact hrow
        exact ih hskipped htx

/-- What an outcome says stays true while other runs apply files. -/
theorem OutcomeOk.append {outcome : MigrationOutcome} (h : OutcomeOk files history r outcome) (hne : r' ≠ r) :
    OutcomeOk files (history ++ [(r', m)]) r outcome := by
  cases outcome with
  | success _ _ => exact fun m' hm' => mem_rows_append (h m' hm')
  | checksumMismatch migrationId expected actual =>
    obtain ⟨hexpected, before, m', after, pre, post, hfiles, hrow, hhistory, hread, hpre, hown⟩ := h
    refine ⟨hexpected, before, m', after, pre, post ++ [(r', m)], hfiles, hrow, ?_, hread, hpre, fun m'' hm'' => ?_⟩
    · rw [hhistory, List.append_assoc]
    · rcases List.mem_append.1 hm'' with hm'' | hm''
      · exact hown m'' hm''
      · cases List.mem_singleton.1 hm''
        exact absurd rfl hne
  | failed | lost => trivial

/-- A run outside the lock does not see another one apply a file. -/
theorem RunOk.append (h : RunOk files history r run) (hlock : run.phase.holdsLock = false) (hne : r' ≠ r) :
    RunOk files (history ++ [(r', m)]) r run := by
  have hfresh (h : ∀ m, (r, m) ∉ history) (m' : Migration) : (r, m') ∉ history ++ [(r', m)] := by
    intro hm'
    rcases List.mem_append.1 hm' with hm' | hm'
    · exact h m' hm'
    · cases List.mem_singleton.1 hm'
      exact hne rfl
  unfold RunOk at h ⊢
  cases hphase : run.phase with
  | reserve | setTimeout | createTable | lock =>
    rw [hphase] at h
    exact ⟨h.1, hfresh h.2⟩
  | resetTimeout outcome | ended outcome =>
    rw [hphase] at h
    exact ⟨h.1, h.2.append hne⟩
  | fetchApplied | begin | scope | statement | insert | commit | rollback | unlock =>
    rw [hphase] at hlock
    cases hlock

end

namespace MigrationState

section

variable {s : MigrationState} {r r' : ℕ} {run : MigrationRun} {tx : Option OpenTransaction}

@[simp] theorem setRun_self : (s.setRun r run).runs r = run := Function.update_self ..

theorem setRun_of_ne (h : r' ≠ r) : (s.setRun r run).runs r' = s.runs r' := Function.update_of_ne h ..

@[simp] theorem setTx_self : (s.setTx r tx).runs r = { s.runs r with tx := tx } := Function.update_self ..

theorem setTx_of_ne (h : r' ≠ r) : (s.setTx r tx).runs r' = s.runs r' := Function.update_of_ne h ..

end

section

variable {control : String → Option TransactionControl} {files : ℕ → List Migration} {history : MigrationHistory}
  {s s' : MigrationState} {r : ℕ} {m : Migration} {rest : List Migration}

/-- A step of one run that commits no file. -/
theorem inv_update (h : MigrationInv files history s) (htracking : s'.tracking = s.tracking)
    (hcommitted : s'.committed = s.committed) (hruns : ∀ r', r' ≠ r → s'.runs r' = s.runs r')
    (hothers : ∀ r', r' ≠ r → s.lock = some r' → s'.lock = some r')
    (hown : (s'.runs r).phase.holdsLock = true → s'.lock = some r)
    (hrun : RunOk (files r) history r (s'.runs r)) : MigrationInv files history s' := by
  refine ⟨⟨htracking ▸ h.inStep.tracking, hcommitted ▸ h.inStep.committed, h.inStep.nodup⟩, h.ordered, ?_, ?_⟩
  · intro r' hholds
    by_cases hr : r' = r
    · subst hr
      exact hown hholds
    · rw [hruns r' hr] at hholds
      exact hothers r' hr (h.lock r' hholds)
  · intro r'
    by_cases hr : r' = r
    · subst hr
      exact hrun
    · rw [hruns r' hr]
      exact h.run r'

/-- The step that commits a file with its tracking row. -/
theorem inv_commit (h : MigrationInv files history s) (hphase : (s.runs r).phase = .commit m rest)
    (htracking : s'.tracking = s.tracking ++ [m.row]) (hcommitted : s'.committed = s.committed ++ m.executions r)
    (hruns : ∀ r', r' ≠ r → s'.runs r' = s.runs r')
    (hown : (s'.runs r).phase.holdsLock = true → s'.lock = some r)
    (hrun : RunOk (files r) (history ++ [(r, m)]) r (s'.runs r)) : MigrationInv files (history ++ [(r, m)]) s' := by
  have hheld : s.lock = some r := h.lock r (by rw [hphase]; rfl)
  have hok := h.run r
  rw [RunOk, hphase] at hok
  obtain ⟨⟨-, hnew⟩, before, hprogress⟩ := hok
  refine ⟨⟨?_, ?_, ?_⟩, ?_, ?_, ?_⟩
  · rw [htracking, h.inStep.tracking, rows, rows, List.map_append, List.map_singleton]
  · rw [hcommitted, h.inStep.committed, executions, executions, List.flatMap_append, List.flatMap_singleton]
  · rw [ids, List.map_append, List.map_singleton, List.nodup_append]
    refine ⟨h.inStep.nodup, by simp, fun id hid id' hid' heq => ?_⟩
    rw [List.mem_singleton.1 hid'] at heq
    exact hnew (heq ▸ hid)
  · refine h.ordered.concat ⟨before, rest, hprogress.split, fun m' hm' => ?_⟩
    obtain ⟨entry, hentry, hrow⟩ := List.mem_map.1 (hprogress.recorded m' hm')
    exact List.mem_map.2 ⟨entry, hentry, congrArg AppliedMigration.id hrow⟩
  · intro r' hholds
    by_cases hr : r' = r
    · subst hr
      exact hown hholds
    · rw [hruns r' hr] at hholds
      exact absurd (Option.some.inj ((h.lock r' hholds).symm.trans hheld)) hr
  · intro r'
    by_cases hr : r' = r
    · subst hr
      exact hrun
    · rw [hruns r' hr]
      refine (h.run r').append ?_ (Ne.symm hr)
      by_contra hholds
      exact hr (Option.some.inj ((h.lock r' (by simpa using hholds)).symm.trans hheld))

/-- What a statement's effect leaves as it is. -/
structure EffectFrame (s s' : MigrationState) (r : ℕ) : Prop where
  own : ∃ tx, s'.runs r = { s.runs r with tx := tx }
  others : ∀ r', r' ≠ r → s'.runs r' = s.runs r'
  lock : ∀ r', r' ≠ r → s.lock = some r' → s'.lock = some r'

theorem EffectFrame.refl (s : MigrationState) (r : ℕ) : EffectFrame s s r :=
  ⟨⟨_, rfl⟩, fun _ _ => rfl, fun _ _ h => h⟩

theorem EffectFrame.setTx (s : MigrationState) (r : ℕ) (tx : Option OpenTransaction) :
    EffectFrame s (s.setTx r tx) r :=
  ⟨⟨tx, setTx_self⟩, fun _ hr => setTx_of_ne hr, fun _ _ h => h⟩

theorem EffectFrame.commitTx (s : MigrationState) (r : ℕ) : EffectFrame s (s.commitTx r) r := by
  rw [MigrationState.commitTx]
  split
  · exact .refl s r
  · exact ⟨⟨none, setTx_self⟩, fun _ hr => setTx_of_ne hr, fun _ _ h => h⟩

theorem effect_frame (he : s.effect control r = some s') : EffectFrame s s' r := by
  rw [effect] at he
  split at he
  · split at he
    · next hfree =>
      cases he
      exact ⟨⟨_, rfl⟩, fun _ _ => rfl, fun _ _ h => by rw [hfree] at h; cases h⟩
    · cases he
  · cases he
    exact .setTx ..
  · cases he
    rw [execute]
    split
    · exact .commitTx ..
    · exact .setTx ..
    · exact .setTx ..
    · exact ⟨⟨_, rfl⟩, fun _ _ => rfl, fun _ _ h => h⟩
    · exact .setTx ..
  · rw [insertRow] at he
    split at he
    · cases he
    · split at he
      · cases he
        exact ⟨⟨_, rfl⟩, fun _ _ => rfl, fun _ _ h => h⟩
      · split at he
        · cases he
        · cases he
          exact .setTx ..
  · cases he
    exact .commitTx ..
  · cases he
    exact .setTx ..
  · cases he
    refine ⟨⟨_, rfl⟩, fun _ _ => rfl, fun r' hr h => ?_⟩
    rw [h, if_neg fun heq => hr (Option.some.inj heq)]
  · cases he
  · cases he
    exact .refl s r

/-- No statement of the files ends the transaction around it. -/
def Plain (control : String → Option TransactionControl) (files : ℕ → List Migration) : Prop :=
  ∀ r, ∀ m ∈ files r, ∀ stmt ∈ m.statements, control stmt ≠ some .commit ∧ control stmt ≠ some .rollback

/-- Inside a transaction a statement that does not end it adds itself. -/
theorem execute_of_tx {e : StatementExecution} {tx : OpenTransaction} (htx : (s.runs r).tx = some tx)
    (hcommit : control e.statement ≠ some .commit) (hrollback : control e.statement ≠ some .rollback) :
    s.execute control r e = s.setTx r (some { tx with executed := tx.executed ++ [e] }) := by
  rw [execute, htx]
  cases hcontrol : control e.statement with
  | none => rfl
  | some c =>
    cases c with
    | start => rfl
    | commit => exact absurd hcontrol hcommit
    | rollback => exact absurd hcontrol hrollback

/-- The runner's `COMMIT` commits the whole file and its row. -/
theorem effect_commit (h : MigrationInv files history s) (hphase : (s.runs r).phase = .commit m rest)
    (he : s.effect control r = some s') :
    s' = { s.setTx r none with
      tracking := s.tracking ++ [m.row]
      committed := s.committed ++ m.executions r } := by
  have hok := h.run r
  simp only [RunOk, hphase] at hok
  simp only [effect, hphase, commitTx, hok.1.1] at he
  cases he
  rfl

/-- No other statement changes what is committed. -/
theorem effect_store (h : MigrationInv files history s) (hplain : Plain control files)
    (he : s.effect control r = some s') (hcommit : ∀ m rest, (s.runs r).phase ≠ .commit m rest) :
    s'.tracking = s.tracking ∧ s'.committed = s.committed := by
  have hok := h.run r
  rw [effect] at he
  split at he
  · split at he
    · cases he
      exact ⟨rfl, rfl⟩
    · cases he
  · cases he
    exact ⟨rfl, rfl⟩
  · next m stmt pending rest hphase =>
    cases he
    simp only [RunOk, hphase] at hok
    obtain ⟨⟨done, hdone, htx⟩, before, hprogress⟩ := hok
    have hstmt := hplain r m (by rw [hprogress.split]; simp) stmt (by rw [hdone]; simp)
    rw [execute_of_tx htx hstmt.1 hstmt.2]
    exact ⟨rfl, rfl⟩
  · next m rest hphase =>
    simp only [RunOk, hphase] at hok
    rw [insertRow, hok.1] at he
    split at he
    · cases he
    · dsimp only at he
      split at he
      · cases he
      · cases he
        exact ⟨rfl, rfl⟩
  · next m rest hphase => exact absurd hphase (hcommit m rest)
  · cases he
    exact ⟨rfl, rfl⟩
  · cases he
    exact ⟨rfl, rfl⟩
  · cases he
  · cases he
    exact ⟨rfl, rfl⟩

theorem abandon_cases {run run' : MigrationRun} (h : run.abandon = some run') :
    run'.tx = none ∧ ((run'.phase = .ended .lost ∧ ∀ outcome, run.phase ≠ .ended outcome) ∨
      ∃ outcome, run'.phase = .ended outcome ∧ (run.phase = .unlock outcome ∨ run.phase = .resetTimeout outcome)) := by
  rw [MigrationRun.abandon] at h
  split at h
  · cases h
  · next outcome hphase =>
    cases h
    exact ⟨rfl, .inr ⟨outcome, rfl, .inl hphase⟩⟩
  · next outcome hphase =>
    cases h
    exact ⟨rfl, .inr ⟨outcome, rfl, .inr hphase⟩⟩
  · next hended _ _ =>
    cases h
    exact ⟨rfl, .inl ⟨rfl, hended⟩⟩

/-- The outcome a run has reached survives its session. -/
theorem runOk_abandon {base run run' : MigrationRun} (h : run.abandon = some run') (hphase : run.phase = base.phase)
    (hok : RunOk (files r) history r base) : RunOk (files r) history r run' := by
  obtain ⟨htx, ⟨hlost, -⟩ | ⟨outcome, hended, hunlock | hreset⟩⟩ := abandon_cases h
  · rw [RunOk, hlost]
    exact ⟨htx, trivial⟩
  · rw [RunOk, ← hphase, hunlock] at hok
    rw [RunOk, hended]
    exact ⟨htx, hok.2⟩
  · rw [RunOk, ← hphase, hreset] at hok
    rw [RunOk, hended]
    exact ⟨htx, hok.2⟩

/-- A run that loses its session at the `COMMIT` never learns what became of it. -/
theorem runOk_abandon_commit {run run' : MigrationRun} (h : run.abandon = some run')
    (hphase : run.phase = .commit m rest) : RunOk (files r) history r run' := by
  obtain ⟨htx, ⟨hlost, -⟩ | ⟨outcome, -, hunlock | hreset⟩⟩ := abandon_cases h
  · rw [RunOk, hlost]
    exact ⟨htx, trivial⟩
  · rw [hphase] at hunlock
    cases hunlock
  · rw [hphase] at hreset
    cases hreset

theorem abandon_holdsLock {run run' : MigrationRun} (h : run.abandon = some run') :
    run'.phase.holdsLock = false := by
  obtain ⟨-, ⟨hphase, -⟩ | ⟨outcome, hphase, -⟩⟩ := abandon_cases h <;> rw [hphase] <;> rfl

theorem EffectFrame.closeSession (h : EffectFrame s s' r) (run : MigrationRun) :
    (∀ r', r' ≠ r → (s'.closeSession r run).runs r' = s.runs r') ∧
      ∀ r', r' ≠ r → s.lock = some r' → (s'.closeSession r run).lock = some r' := by
  refine ⟨fun r' hr => (setRun_of_ne hr).trans (h.others r' hr), fun r' hr hheld => ?_⟩
  simp only [MigrationState.closeSession, h.lock r' hr hheld]
  rw [if_neg fun heq => hr (Option.some.inj heq)]

/-- A run loses its session at any statement, and whatever the server had left to do is done or not. -/
theorem inv_lose {applied : Bool} (h : MigrationInv files history s) (hplain : Plain control files)
    (hs : s.step control files (.lose r applied) = some s') : ∃ history', MigrationInv files history' s' := by
  simp only [step, Option.bind_eq_some_iff, Option.map_eq_some_iff] at hs
  obtain ⟨s₁, he, run, habandon, rfl⟩ := hs
  have hself : (s₁.closeSession r run).runs r = run := setRun_self
  have hunlocked : ((s₁.closeSession r run).runs r).phase.holdsLock = true →
      (s₁.closeSession r run).lock = some r := by
    rw [hself, abandon_holdsLock habandon]
    exact nofun
  cases applied with
  | false =>
    cases he
    obtain ⟨hothers, hlock⟩ := (EffectFrame.refl s r).closeSession run
    refine ⟨history, inv_update h rfl rfl hothers hlock hunlocked ?_⟩
    rw [hself]
    exact runOk_abandon habandon rfl (h.run r)
  | true =>
    have hframe := effect_frame he
    obtain ⟨hothers, hlock⟩ := hframe.closeSession run
    have hphase : (s₁.runs r).phase = (s.runs r).phase := by
      obtain ⟨tx, hown⟩ := hframe.own
      rw [hown]
    by_cases hcommit : ∃ m rest, (s.runs r).phase = .commit m rest
    · obtain ⟨m, rest, hcommit⟩ := hcommit
      obtain rfl := effect_commit h hcommit he
      refine ⟨history ++ [(r, m)], inv_commit h hcommit rfl rfl hothers hunlocked ?_⟩
      rw [hself]
      exact runOk_abandon_commit habandon (hphase.trans hcommit)
    · obtain ⟨htracking, hcommitted⟩ := effect_store h hplain he fun m rest heq => hcommit ⟨m, rest, heq⟩
      refine ⟨history, inv_update h htracking hcommitted hothers hlock hunlocked ?_⟩
      rw [hself]
      exact runOk_abandon habandon hphase (h.run r)

/-- A failing statement ends the loop, with nothing of the open transaction left. -/
theorem runOk_abort {run run' : MigrationRun} (h : run.abort = some run') (hok : RunOk (files r) history r run) :
    RunOk (files r) history r run' ∧ (run'.phase.holdsLock = true → run.phase.holdsLock = true) := by
  rw [MigrationRun.abort] at h
  cases hphase : run.phase with
  | reserve | setTimeout | createTable | lock =>
    simp only [hphase] at h
    cases h
    simp only [RunOk, hphase] at hok
    exact ⟨⟨hok.1, trivial⟩, nofun⟩
  | fetchApplied | «begin» =>
    simp only [hphase] at h
    cases h
    simp only [RunOk, hphase] at hok
    exact ⟨⟨hok.1, trivial⟩, fun _ => rfl⟩
  | scope | statement | insert | commit =>
    simp only [hphase] at h
    cases h
    exact ⟨rfl, fun _ => rfl⟩
  | resetTimeout outcome =>
    simp only [hphase] at h
    cases h
    simp only [RunOk, hphase] at hok
    exact ⟨hok, nofun⟩
  | rollback | unlock | ended =>
    simp only [hphase] at h
    cases h

theorem inv_fail (h : MigrationInv files history s) (hs : s.step control files (.fail r) = some s') :
    MigrationInv files history s' := by
  simp only [step, Option.map_eq_some_iff] at hs
  obtain ⟨run, habort, rfl⟩ := hs
  obtain ⟨hok, hholds⟩ := runOk_abort habort (h.run r)
  refine inv_update h rfl rfl (fun _ hr => setRun_of_ne hr) (fun _ _ hlock => hlock) ?_ ?_
  · rw [setRun_self]
    exact fun hrun => h.lock r (hholds hrun)
  · rw [setRun_self]
    exact hok

theorem runOk_nextStatement {files : List Migration} {pending : List String} (run : MigrationRun)
    (done : List String) (hdone : m.statements = done ++ pending) (htx : run.tx = some ⟨done.map (⟨r, m.id, ·⟩), []⟩)
    (hprogress : ∃ before, Progress files history r run.applied before (m :: rest)) :
    RunOk files history r { run with phase := MigrationRun.nextStatement m rest pending } := by
  cases pending with
  | nil =>
    rw [List.append_nil] at hdone
    refine ⟨?_, hprogress⟩
    rw [Migration.executions, hdone]
    exact htx
  | cons stmt pending => exact ⟨⟨done, hdone, htx⟩, hprogress⟩

/-- A call's next statement after one that succeeded, up to the `COMMIT`. -/
theorem runOk_advance (h : MigrationInv files history s) (hplain : Plain control files)
    (he : s.effect control r = some s') (hcommit : ∀ m rest, (s.runs r).phase ≠ .commit m rest) :
    RunOk (files r) history r ((s'.runs r).advance (files r) s'.tracking) ∧
      (((s'.runs r).advance (files r) s'.tracking).phase.holdsLock = true → s'.lock = some r) := by
  have hok := h.run r
  have hheld := h.lock r
  rw [effect] at he
  cases hphase : (s.runs r).phase with
  | reserve | setTimeout | createTable =>
    simp only [hphase] at he
    cases he
    simp only [RunOk, hphase] at hok
    rw [MigrationRun.advance, hphase]
    exact ⟨hok, nofun⟩
  | lock =>
    simp only [hphase] at he
    split at he
    · cases he
      simp only [RunOk, hphase] at hok
      rw [MigrationRun.advance, hphase]
      exact ⟨hok, fun _ => rfl⟩
    · cases he
  | fetchApplied =>
    simp only [hphase] at he
    cases he
    simp only [RunOk, hphase] at hok
    rw [MigrationRun.advance, hphase]
    have hstart : Progress (files r) history r s.tracking [] (files r) := by
      refine ⟨rfl, fun m hm => absurd hm List.not_mem_nil, fun m hm => absurd hm (hok.2 m), ?_⟩
      exact ⟨history, [], (List.append_nil _).symm, h.inStep.tracking, hok.2⟩
    exact ⟨runOk_nextFile hstart hok.1, fun _ => hheld (by rw [hphase]; rfl)⟩
  | «begin» m rest =>
    simp only [hphase] at he
    cases he
    simp only [RunOk, hphase] at hok
    simp only [MigrationRun.advance, setTx_self, hphase]
    exact ⟨⟨rfl, hok.2⟩, fun _ => hheld (by rw [hphase]; rfl)⟩
  | scope m rest =>
    simp only [hphase] at he
    cases he
    simp only [RunOk, hphase] at hok
    simp only [MigrationRun.advance, hphase]
    exact ⟨runOk_nextStatement _ [] rfl hok.1 hok.2, fun _ => hheld (by rw [hphase]; rfl)⟩
  | statement m stmt pending rest =>
    simp only [hphase] at he
    cases he
    simp only [RunOk, hphase] at hok
    obtain ⟨⟨done, hdone, htx⟩, before, hprogress⟩ := hok
    have hstmt := hplain r m (by rw [hprogress.split]; simp) stmt (by rw [hdone]; simp)
    rw [execute_of_tx htx hstmt.1 hstmt.2]
    simp only [MigrationRun.advance, setTx_self, hphase]
    refine ⟨runOk_nextStatement { s.runs r with tx := some ⟨_, []⟩ } (done ++ [stmt]) ?_ ?_ ⟨before, hprogress⟩,
      fun _ => hheld (by rw [hphase]; rfl)⟩
    · rw [hdone, List.append_assoc, List.singleton_append]
    · rw [List.map_append, List.map_singleton]
  | insert m rest =>
    simp only [hphase] at he
    simp only [RunOk, hphase] at hok
    rw [insertRow, hok.1] at he
    split at he
    · cases he
    next hfree =>
    dsimp only at he
    split at he
    · cases he
    cases he
    simp only [MigrationRun.advance, setTx_self, hphase]
    refine ⟨⟨⟨rfl, fun hid => hfree ?_⟩, hok.2⟩, fun _ => hheld (by rw [hphase]; rfl)⟩
    rw [List.contains_iff_mem, h.inStep.tracking, rows, List.map_map]
    exact hid
  | commit m rest => exact absurd hphase (hcommit m rest)
  | rollback =>
    simp only [hphase] at he
    cases he
    simp only [MigrationRun.advance, setTx_self, hphase]
    exact ⟨⟨rfl, trivial⟩, fun _ => hheld (by rw [hphase]; rfl)⟩
  | unlock outcome =>
    simp only [hphase] at he
    cases he
    simp only [RunOk, hphase] at hok
    rw [MigrationRun.advance, hphase]
    exact ⟨hok, nofun⟩
  | resetTimeout outcome =>
    simp only [hphase] at he
    cases he
    simp only [RunOk, hphase] at hok
    rw [MigrationRun.advance, hphase]
    exact ⟨hok, nofun⟩
  | ended outcome =>
    simp only [hphase] at he
    cases he

/-- With its file committed the run goes on to the next one. -/
theorem runOk_commit (h : MigrationInv files history s) (hphase : (s.runs r).phase = .commit m rest) :
    RunOk (files r) (history ++ [(r, m)]) r (MigrationRun.nextFile rest
      { s.runs r with appliedIds := (s.runs r).appliedIds ++ [m.id], tx := none }) ∧ s.lock = some r := by
  have hok := h.run r
  simp only [RunOk, hphase] at hok
  obtain ⟨-, before, hprogress⟩ := hok
  obtain ⟨pre, post, hhistory, hread, hown⟩ := hprogress.read
  have happlied : Progress (files r) (history ++ [(r, m)]) r (s.runs r).applied (before ++ [m]) rest := by
    refine ⟨?_, fun m' hm' => ?_, fun m' hm' => ?_, pre, post ++ [(r, m)], ?_, hread, hown⟩
    · rw [hprogress.split, List.append_assoc, List.singleton_append]
    · rcases List.mem_append.1 hm' with hm' | hm'
      · exact mem_rows_append (hprogress.recorded m' hm')
      · cases List.mem_singleton.1 hm'
        rw [rows, List.map_append]
        exact List.mem_append_right _ (List.mem_singleton_self _)
    · rcases List.mem_append.1 hm' with hm' | hm'
      · exact List.mem_append_left _ (hprogress.own m' hm')
      · cases List.mem_singleton.1 hm'
        exact List.mem_append_right _ (List.mem_singleton_self _)
    · rw [hhistory, List.append_assoc]
  exact ⟨runOk_nextFile happlied rfl, h.lock r (by rw [hphase]; rfl)⟩

theorem inv_succeed (h : MigrationInv files history s) (hplain : Plain control files)
    (hs : s.step control files (.succeed r) = some s') : ∃ history', MigrationInv files history' s' := by
  simp only [step, Option.map_eq_some_iff] at hs
  obtain ⟨s₁, he, rfl⟩ := hs
  have hframe := effect_frame he
  have hothers (run : MigrationRun) (r' : ℕ) (hr : r' ≠ r) : (s₁.setRun r run).runs r' = s.runs r' :=
    (setRun_of_ne hr).trans (hframe.others r' hr)
  by_cases hcommit : ∃ m rest, (s.runs r).phase = .commit m rest
  · obtain ⟨m, rest, hphase⟩ := hcommit
    obtain rfl := effect_commit h hphase he
    obtain ⟨hok, hheld⟩ := runOk_commit h hphase
    have hnext : RunOk (files r) (history ++ [(r, m)]) r
        (((s.setTx r none).runs r).advance (files r) (s.tracking ++ [m.row])) := by
      simp only [setTx_self, MigrationRun.advance, hphase] at hok ⊢
      exact hok
    refine ⟨history ++ [(r, m)], inv_commit h hphase rfl rfl (hothers _) (fun _ => hheld) ?_⟩
    rw [setRun_self]
    exact hnext
  · obtain ⟨htracking, hcommitted⟩ := effect_store h hplain he fun m rest heq => hcommit ⟨m, rest, heq⟩
    obtain ⟨hok, hholds⟩ := runOk_advance h hplain he fun m rest heq => hcommit ⟨m, rest, heq⟩
    refine ⟨history, inv_update h htracking hcommitted (hothers _) hframe.lock ?_ ?_⟩
    · rw [setRun_self]
      exact hholds
    · rw [setRun_self]
      exact hok

theorem inv_step {a : MigrationAct} (h : MigrationInv files history s) (hplain : Plain control files)
    (hs : s.step control files a = some s') : ∃ history', MigrationInv files history' s' := by
  cases a with
  | succeed r => exact inv_succeed h hplain hs
  | fail r => exact ⟨history, inv_fail h hs⟩
  | lose r applied => exact inv_lose h hplain hs

theorem inv_initial : MigrationInv files [] initial where
  inStep := ⟨rfl, rfl, List.nodup_nil⟩
  ordered := by
    intro pre r m post heq
    cases pre with
    | nil | cons => cases heq
  lock := fun _ => nofun
  run := fun _ => ⟨rfl, fun _ => List.not_mem_nil⟩

/-! ## One order for all runs -/

theorem ids_append (history post : MigrationHistory) : ids (history ++ post) = ids history ++ ids post :=
  List.map_append

/-- Where every run's list is the beginning of one order, the files are applied in that order. -/
theorem ids_order {order : List String} (h : history.Ordered files) (hnodup : (ids history).Nodup)
    (horder : order.Nodup) (hfiles : ∀ r, (files r).map Migration.id <+: order) : ids history <+: order := by
  induction history using List.reverseRecOn with
  | nil => exact List.nil_prefix
  | append_singleton history entry ih =>
    obtain ⟨r, m⟩ := entry
    obtain ⟨before, after, hsplit, hbefore⟩ := h history r m [] rfl
    have hinit : MigrationHistory.Ordered history files := by
      intro pre r' m' post heq
      exact h pre r' m' (post ++ [(r, m)]) (by rw [heq, List.append_assoc, List.cons_append])
    rw [ids_append] at hnodup ⊢
    obtain ⟨hrecorded, -, hnew⟩ := List.nodup_append.1 hnodup
    obtain ⟨tail, htail⟩ := ih hinit hrecorded
    obtain ⟨rest, hrest⟩ := hfiles r
    rw [hsplit, List.map_append, List.map_cons, List.append_assoc, List.cons_append, ← htail] at hrest
    -- the file stands right behind what is recorded: nothing is skipped, nothing comes twice
    have hnext : tail = m.id :: (after.map Migration.id ++ rest) := by
      rcases List.append_eq_append_iff.1 hrest with ⟨mid, hids, hcons⟩ | ⟨mid, hids, hcons⟩
      · cases mid with
        | nil => exact hcons.symm
        | cons id mid =>
          obtain ⟨rfl, -⟩ := List.cons.inj hcons
          refine absurd rfl (hnew m.id ?_ m.id (List.mem_singleton_self _))
          rw [hids]
          exact List.mem_append_right _ List.mem_cons_self
      · cases mid with
        | nil => exact hcons
        | cons id mid =>
          have hid : id ∈ ids history := by
            obtain ⟨m', hm', rfl⟩ : ∃ m' ∈ before, m'.id = id := by
              rw [← List.mem_map, hids]
              exact List.mem_append_right _ List.mem_cons_self
            exact hbefore m' hm'
          rw [← htail, hcons, List.cons_append, List.nodup_append] at horder
          exact absurd rfl (horder.2.2 id hid id List.mem_cons_self)
    refine ⟨after.map Migration.id ++ rest, ?_⟩
    rw [← htail, hnext, List.append_assoc]
    rfl

/-- A run that finds a changed file has then applied none: the files in front of it were all recorded before. -/
theorem applied_none_of_mismatch {order : List String} {migrationId expected actual : String}
    (h : MigrationInv files history s) (horder : order.Nodup) (hfiles : ∀ r, (files r).map Migration.id <+: order)
    (hphase : (s.runs r).phase = .ended (.checksumMismatch migrationId expected actual)) (m : Migration) :
    (r, m) ∉ history := by
  have hok := h.run r
  simp only [RunOk, hphase] at hok
  obtain ⟨-, -, before, changed, after, pre, post, hsplit, hrow, hhistory, hread, hpre, hown⟩ := hok
  intro hm
  have hpost : m.id ∈ ids post := by
    rw [hhistory] at hm
    exact List.mem_map.2 ⟨(r, m), (List.mem_append.1 hm).resolve_left (hpre m), rfl⟩
  have hbefore : m.id ∈ before.map Migration.id := List.mem_map_of_mem (hown m hm)
  have hchanged : changed.id ∈ ids pre := by
    obtain ⟨entry, hentry, heq⟩ := List.mem_map.1 hread
    refine List.mem_map.2 ⟨entry, hentry, ?_⟩
    exact (congrArg AppliedMigration.id heq).trans (congrArg AppliedMigration.id hrow).symm
  have hids := h.inStep.nodup
  rw [hhistory, ids_append, List.nodup_append] at hids
  have hlist : (before.map Migration.id ++ changed.id :: after.map Migration.id) <+: order := by
    have := hfiles r
    rwa [hsplit, List.map_append, List.map_cons] at this
  have hpreOrder : ids pre <+: order := by
    have := ids_order h.ordered h.inStep.nodup horder hfiles
    rw [hhistory, ids_append] at this
    exact (List.prefix_append _ _).trans this
  rcases List.prefix_or_prefix_of_prefix hpreOrder ((List.prefix_append _ _).trans hlist) with hle | hle
  · have hnodup := hlist.sublist.nodup horder
    rw [List.nodup_append] at hnodup
    exact hnodup.2.2 _ (hle.subset hchanged) _ List.mem_cons_self rfl
  · exact hids.2.2 _ (hle.subset hbefore) _ hpost rfl

end

variable (control : String → Option TransactionControl) (files : ℕ → List Migration)

/-- In every state that any number of runs reach, with statements that fail and sessions that end anywhere, the
tracking table and the schema are in step. -/
theorem migrations_safe {s : MigrationState} (hplain : Plain control files)
    (hrun : Run (step control files) (fun _ _ => True) initial s) : MigrationsSafe files s := by
  have hinv : ∃ history, MigrationInv files history s := by
    refine hrun.invariant (I := fun s => ∃ history, MigrationInv files history s) ⟨[], inv_initial⟩ ?_
    rintro s a s' ⟨history, h⟩ - hs
    exact inv_step h hplain hs
  obtain ⟨history, h⟩ := hinv
  refine ⟨history, h.inStep, h.ordered, fun r outcome hphase => ?_, fun order horder hfiles => ⟨?_, ?_⟩⟩
  · have hok := h.run r
    simp only [RunOk, hphase] at hok
    exact hok.2
  · exact ids_order h.ordered h.inStep.nodup horder hfiles
  · exact fun r migrationId expected actual hphase => applied_none_of_mismatch h horder hfiles hphase

/-! ## Runs on files -/

def initFile : Migration := ⟨"0001_init", "c1", ["CREATE TABLE a ();", "CREATE TABLE b ();"]⟩

def localeFile : Migration := ⟨"0002_add_locale", "c2", ["ALTER TABLE a ADD COLUMN locale text;"]⟩

/-- The second pod knows a file more. -/
def podFiles (r : ℕ) : List Migration := if r = 0 then [initFile] else [initFile, localeFile]

def noControl : String → Option TransactionControl := fun _ => none

/-- A statement of run `r` after another succeeds, `n` times. -/
def succeeds (r n : ℕ) : List MigrationAct := List.replicate n (.succeed r)

/-- The first pod dies behind its first statement, the second applies both files. -/
def crashAndRetry : List MigrationAct := succeeds 0 8 ++ [.lose 0 false] ++ succeeds 1 17

/-- The table after a crash and a retry. -/
theorem migrations_safe_retried : ∃ s, (s.tracking = [initFile.row, localeFile.row] ∧
    s.committed = initFile.executions 1 ++ localeFile.executions 1) ∧ MigrationsSafe podFiles s := by
  obtain ⟨s, hrun, hs⟩ := exists_run_of_exec (step noControl podFiles) initial crashAndRetry
    (fun s => s.tracking = [initFile.row, localeFile.row] ∧
      s.committed = initFile.executions 1 ++ localeFile.executions 1) (by decide +kernel)
  exact ⟨s, of_decide_eq_true hs, migrations_safe noControl podFiles (fun _ _ _ _ _ => ⟨nofun, nofun⟩) hrun⟩

/-- Whole files, once, in order and recorded, and none of them by a run that finds a changed file. -/
structure MigrationsClaim (files : ℕ → List Migration) (s : MigrationState) : Prop where
  applied : ∃ history : MigrationHistory, InStep history s ∧ history.Ordered files ∧
    ∀ r migrationId expected actual, (s.runs r).phase = .ended (.checksumMismatch migrationId expected actual) →
      ∀ m, (r, m) ∉ history

/-- A file that is edited after it was applied, and one that a branch adds in front of it. -/
def editedFiles (r : ℕ) : List Migration :=
  if r = 0 then [localeFile] else [initFile, { localeFile with checksum := "c3" }]

def editedRuns : List MigrationAct := succeeds 0 12 ++ succeeds 1 13

/-- A file that opens and ends a transaction of its own. -/
def committingFile : Migration := ⟨"0001_init", "c1", ["BEGIN;", "CREATE TABLE a ();", "COMMIT;"]⟩

def sqlControl (stmt : String) : Option TransactionControl :=
  if stmt = "BEGIN;" then some .start else if stmt = "COMMIT;" then some .commit else none

/-- The pod dies in front of the tracking row. -/
def committingRun : List MigrationAct := succeeds 0 10 ++ [.lose 0 false]

/-- The file in front of the changed one is applied before the run fails. And with a `COMMIT` in a file its
statements are committed before they are recorded. -/
theorem not_migrationsClaim :
    (∃ s, Run (step noControl editedFiles) (fun _ _ => True) initial s ∧ ¬ MigrationsClaim editedFiles s) ∧
      ∃ s, Run (step sqlControl fun _ => [committingFile]) (fun _ _ => True) initial s ∧
        ¬ MigrationsClaim (fun _ => [committingFile]) s := by
  constructor
  · obtain ⟨s, hrun, hs⟩ := exists_run_of_exec (step noControl editedFiles) initial editedRuns
      (fun s => (s.runs 1).phase = .ended (.checksumMismatch "0002_add_locale" "c2" "c3") ∧
        ⟨1, "0001_init", "CREATE TABLE a ();"⟩ ∈ s.committed) (by decide +kernel)
    obtain ⟨hphase, hmem⟩ := of_decide_eq_true hs
    refine ⟨s, hrun, fun ⟨history, hstep, _, hnone⟩ => ?_⟩
    rw [hstep.committed] at hmem
    obtain ⟨⟨r, m⟩, hentry, hexecution⟩ := List.mem_flatMap.1 hmem
    obtain ⟨stmt, -, heq⟩ := List.mem_map.1 hexecution
    obtain rfl : r = 1 := congrArg StatementExecution.run heq
    exact hnone 1 _ _ _ hphase m hentry
  · obtain ⟨s, hrun, hs⟩ := exists_run_of_exec (step sqlControl fun _ => [committingFile]) initial committingRun
      (fun s => s.tracking = [] ∧ s.committed ≠ []) (by decide +kernel)
    obtain ⟨htracking, hcommitted⟩ := of_decide_eq_true hs
    refine ⟨s, hrun, fun ⟨history, hstep, _, _⟩ => hcommitted ?_⟩
    have hempty : history = [] := List.map_eq_nil_iff.1 (hstep.tracking ▸ htracking)
    rw [hstep.committed, hempty]
    rfl

end MigrationState

end Kumiko

