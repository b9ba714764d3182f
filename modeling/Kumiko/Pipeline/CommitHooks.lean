import Mathlib.Data.List.Nodup
import Mathlib.Data.List.Perm.Subperm
import Mathlib.Order.Nat

/-!
# Hooks after the commit and after the rollback

A handler registers hooks with `commitHooks.afterCommit` and `afterRollback`, and dispatches further writes,
each in a savepoint with sinks of its own. At the end the sink that is flushed holds just the hooks that are due
(`runBatch_ran`). A hook that throws instead of returning a promise ends the flush (`workMatches_iff`). Handlers
are sequential, and the commit ends as `transaction` reports it (`Pipeline.BatchDispatch` has the other ends).
-/

namespace Kumiko

/-! ## Handlers and their hooks -/

/-- What calling a hook does. -/
inductive HookCall
  /-- It returns a promise. Whether that is fulfilled or rejected, `Promise.allSettled` waits for it. -/
  | promise
  /-- It throws. -/
  | throws
  deriving DecidableEq

/-- How a dispatched write ends: with a result, or by throwing. -/
inductive WriteEnd
  | success
  | failure
  | thrown

/-- What the dispatcher meets in a write besides the handler. -/
structure WriteParams where
  /-- The handler is declared with `transaction: "perCommand"`. -/
  perCommand : Bool
  /-- How the gates and the guard of the transitions end. -/
  gates : WriteEnd
  /-- The afterCommit phase of the postSave or postDelete hooks, where the result is a lifecycle one. -/
  lifecycle : Option HookCall
  /-- The start of the jobs, where there is a job runner. -/
  job : Option HookCall
  /-- The invalidation of the caches. -/
  invalidate : HookCall
  /-- The result holds a secret, so that `assertNoSecretLeak` throws. -/
  leaks : Bool

/-- What a handler does, one thing after the other. It goes on by how a write that it dispatched has ended. -/
inductive Handler
  | ends (o : WriteEnd)
  | afterCommit (call : HookCall) (next : Handler)
  | afterRollback (call : HookCall) (next : Handler)
  /-- `dispatch.write`: the write's handler, what its lifecycle runs in the transaction, and whether its
  savepoint can be released. -/
  | write (params : WriteParams) (handler lifecycle : Handler) (released : Bool)
      (onSuccess onFailure onThrow : Handler)

/-- A registered hook: its number, the write that registered it and which of the two kinds it is. -/
structure HookReg where
  id : ℕ
  write : ℕ
  afterRollback : Bool
  call : HookCall
  deriving DecidableEq

/-- The state of a transaction and of the sinks of the write that is running. -/
structure DispatchState where
  /-- The next number for a write or a hook. -/
  next : ℕ
  /-- The writes whose statements are part of the transaction. -/
  written : List ℕ
  /-- All hooks that were registered. -/
  made : List HookReg
  /-- The array `afterCommitHooks`. -/
  commitSink : List HookReg
  /-- The array `afterRollbackHooksOf` that. -/
  rollbackSink : List HookReg

namespace DispatchState

/-- A new transaction. -/
def initial : DispatchState := ⟨0, [], [], [], []⟩

/-- Reference: `scheduleAfterCommit`, and the pushes of `dispatch-write.ts`. -/
def scheduleAfterCommit (s : DispatchState) (write : ℕ) (call : HookCall) : DispatchState :=
  let r : HookReg := ⟨s.next, write, false, call⟩
  { s with next := s.next + 1, made := s.made ++ [r], commitSink := s.commitSink ++ [r] }

/-- Reference: `scheduleAfterRollback`. -/
def scheduleAfterRollback (s : DispatchState) (write : ℕ) (call : HookCall) : DispatchState :=
  let r : HookReg := ⟨s.next, write, true, call⟩
  { s with next := s.next + 1, made := s.made ++ [r], rollbackSink := s.rollbackSink ++ [r] }

/-- A write starts and executes its statements. -/
def beginWrite (s : DispatchState) : DispatchState :=
  { s with next := s.next + 1, written := s.written ++ [s.next] }

/-- The sinks that a nested write starts with. -/
def openSavepoint (s : DispatchState) : DispatchState := { s with commitSink := [], rollbackSink := [] }

/-- The outer sinks take over from those of a nested write. Reference: `carrySavepointRollbackHooks`. -/
def carrySavepointRollbackHooks (outer inner : DispatchState) (savepointRolledBack : Bool) :
    DispatchState :=
  { inner with
    commitSink := outer.commitSink ++ if savepointRolledBack then inner.rollbackSink else []
    rollbackSink := outer.rollbackSink ++ inner.rollbackSink }

/-- The savepoint of a nested write is released. -/
def release (outer inner : DispatchState) : DispatchState :=
  carrySavepointRollbackHooks { outer with commitSink := outer.commitSink ++ inner.commitSink } inner false

/-- The savepoint of a nested write is rolled back. -/
def rollbackTo (outer inner : DispatchState) : DispatchState :=
  { carrySavepointRollbackHooks outer inner true with written := outer.written }

end DispatchState

/-- A part of a write: how it ends, and what it makes of the state. -/
abbrev WriteStep := DispatchState → WriteEnd × DispatchState

/-- A write. An error of the handler or of the lifecycle in the transaction is a failure; one of the gates
or of `assertNoSecretLeak` is thrown on. Reference: `executeWrite` (`dispatch-write.ts`). -/
def executeWrite (params : WriteParams) (handler lifecycle : ℕ → WriteStep) : WriteStep := fun s =>
  if params.perCommand then (.failure, s)
  else match params.gates with
    | .failure => (.failure, s)
    | .thrown => (.thrown, s)
    | .success =>
      let w := s.next
      match handler w s.beginWrite with
      | (.success, s₁) =>
        match lifecycle w s₁ with
        | (.success, s₂) =>
          let s₃ := params.lifecycle.elim s₂ (s₂.scheduleAfterCommit w)
          let s₄ := params.job.elim s₃ (s₃.scheduleAfterCommit w)
          (if params.leaks then .thrown else .success, s₄.scheduleAfterCommit w params.invalidate)
        | (_, s₂) => (.failure, s₂)
      | (_, s₁) => (.failure, s₁)

/-- A nested write. Reference: `runNestedWriteInSavepoint` (`handler-context-dispatch.ts`). -/
def runNestedWriteInSavepoint (perCommand released : Bool) (execute : WriteStep) : WriteStep := fun s =>
  if perCommand then (.failure, s)
  else match execute s.openSavepoint with
    | (.success, inner) =>
      if released then (.success, s.release inner) else (.thrown, s.rollbackTo inner)
    | (.failure, inner) => (.failure, s.rollbackTo inner)
    | (.thrown, inner) => (.thrown, s.rollbackTo inner)

/-- The handler of a write runs. -/
def Handler.run : Handler → ℕ → WriteStep
  | .ends o, _, s => (o, s)
  | .afterCommit call next, w, s => next.run w (s.scheduleAfterCommit w call)
  | .afterRollback call next, w, s => next.run w (s.scheduleAfterRollback w call)
  | .write params handler lifecycle released onSuccess onFailure onThrow, w, s =>
    match runNestedWriteInSavepoint params.perCommand released
        (executeWrite params handler.run lifecycle.run) s with
    | (.success, s') => onSuccess.run w s'
    | (.failure, s') => onFailure.run w s'
    | (.thrown, s') => onThrow.run w s'

/-! ## Batches -/

/-- A write with its handler. -/
structure DispatchedWrite where
  params : WriteParams
  handler : Handler
  lifecycle : Handler

def DispatchedWrite.execute (w : DispatchedWrite) : WriteStep :=
  executeWrite w.params w.handler.run w.lifecycle.run

/-- The children in the payload of a create. -/
structure NestedChildren where
  /-- The pre-flight checks find an issue. -/
  issues : Bool
  /-- The parent has an id, and the caller may attach children to it. -/
  attachable : Bool
  children : List DispatchedWrite

/-- A command of a batch. -/
structure BatchCommand where
  write : DispatchedWrite
  nested : Option NestedChildren

/-- Writes one after the other, up to the first that does not succeed. -/
def executeAll : List WriteStep → WriteStep
  | [], s => (.success, s)
  | w :: ws, s =>
    match w s with
    | (.success, s') => executeAll ws s'
    | (o, s') => (o, s')

/-- A command. Its children share its sinks. Reference: `executeNestedWrite` (`dispatch-nested-write.ts`). -/
def executeNestedWrite (cmd : BatchCommand) : WriteStep := fun s =>
  match cmd.nested with
  | none => cmd.write.execute s
  | some nested =>
    if nested.issues then (.failure, s)
    else match cmd.write.execute s with
      | (.success, s') =>
        if nested.attachable then executeAll (nested.children.map (·.execute)) s' else (.failure, s')
      | (o, s') => (o, s')

/-- The hooks that a flush calls. Reference: `hooks.map((hook) => hook())` in `flushAfterCommit` and
`flushAfterRollback`. -/
def flushHooks : List HookReg → List HookReg
  | [] => []
  | r :: rs =>
    match r.call with
    | .promise => r :: flushHooks rs
    | .throws => [r]

/-- What a batch leaves: the committed writes, the registered hooks and the hooks that ran. -/
structure BatchEnd where
  committed : List ℕ
  made : List HookReg
  ran : List HookReg

/-- A batch. After its commands have succeeded the COMMIT commits, or rolls back with an error. Reference:
`runBatch` (`dispatch-batch.ts`), where the batch runs in a transaction of its own. -/
def runBatch (commands : List BatchCommand) (commits : Bool) : BatchEnd :=
  match executeAll (commands.map executeNestedWrite) .initial with
  | (.success, s) =>
    if commits then ⟨s.written, s.made, flushHooks s.commitSink⟩
    else ⟨[], s.made, flushHooks s.rollbackSink⟩
  | (_, s) => ⟨[], s.made, flushHooks s.rollbackSink⟩

/-- The hook is to run: an afterCommit hook if its write is committed, an afterRollback hook if it is not. -/
def HookReg.Due (committed : List ℕ) (r : HookReg) : Prop :=
  if r.afterRollback then r.write ∉ committed else r.write ∈ committed

instance (committed : List ℕ) (r : HookReg) : Decidable (r.Due committed) := by
  unfold HookReg.Due
  infer_instance

/-- The hooks of a batch that are to run, in the order of their registration. -/
def BatchEnd.due (e : BatchEnd) : List HookReg := e.made.filter (·.Due e.committed)

/-- A hook that is due runs once, and any other never. -/
def WorkMatches (e : BatchEnd) : Prop :=
  ∀ r ∈ e.made, e.ran.count r = if r.Due e.committed then 1 else 0

instance (e : BatchEnd) : Decidable (WorkMatches e) := inferInstanceAs (Decidable (∀ r ∈ e.made, _))

/-! ## What a step adds to the sinks -/

namespace DispatchState

/-- The numbers of the writes are used up. -/
def WF (s : DispatchState) : Prop := ∀ w ∈ s.written, w < s.next

/-- A step registers the hooks `new`, of the running write `own` and of writes that begin in the step. The
sinks get those of them that are due for what the transaction holds, and all the afterRollback hooks. -/
structure Registers (own : Option ℕ) (s s' : DispatchState) (new : List HookReg) : Prop where
  next_le : s.next ≤ s'.next
  made : s'.made = s.made ++ new
  id_ge : ∀ r ∈ new, s.next ≤ r.id
  id_lt : ∀ r ∈ new, r.id < s'.next
  nodup : new.Pairwise fun r r' => r.id ≠ r'.id
  write_of : ∀ r ∈ new, own = some r.write ∨ s.next ≤ r.write
  write_lt : ∀ r ∈ new, r.write < s'.next
  written : ∃ added, s'.written = s.written ++ added ∧ ∀ w ∈ added, s.next ≤ w ∧ w < s'.next
  commitSink : s'.commitSink = s.commitSink ++ new.filter (·.Due s'.written)
  rollbackSink : s'.rollbackSink = s.rollbackSink ++ new.filter (·.afterRollback)

variable {own : Option ℕ} {s s₁ s₂ s' : DispatchState} {new new₁ new₂ : List HookReg}

theorem Registers.refl (own : Option ℕ) (s : DispatchState) : Registers own s s [] where
  next_le := le_rfl
  made := (List.append_nil _).symm
  id_ge _ h := nomatch h
  id_lt _ h := nomatch h
  nodup := .nil
  write_of _ h := nomatch h
  write_lt _ h := nomatch h
  written := ⟨[], (List.append_nil _).symm, fun _ h => nomatch h⟩
  commitSink := (List.append_nil _).symm
  rollbackSink := (List.append_nil _).symm

theorem Registers.wf (h : Registers own s s' new) (hwf : s.WF) : s'.WF := by
  intro w hw
  obtain ⟨added, he, hadded⟩ := h.written
  rw [he] at hw
  rcases List.mem_append.1 hw with hw | hw
  · exact (hwf w hw).trans_le h.next_le
  · exact (hadded w hw).2

theorem Registers.subset (h : Registers own s s' new) : s.written ⊆ s'.written := by
  obtain ⟨added, he, -⟩ := h.written
  rw [he]
  exact List.subset_append_left _ _

/-- What begins later does not change whether a write is in the transaction. -/
theorem Registers.mem_written (h : Registers own s s' new) {w : ℕ} (hw : w < s.next) :
    w ∈ s'.written ↔ w ∈ s.written := by
  obtain ⟨added, he, hadded⟩ := h.written
  rw [he, List.mem_append]
  refine ⟨fun hm => hm.resolve_right fun ha => ?_, .inl⟩
  have := (hadded w ha).1
  omega

theorem Registers.due_iff (h : Registers own s s' new) {r : HookReg} (hr : r.write < s.next) :
    r.Due s'.written ↔ r.Due s.written := by
  unfold HookReg.Due
  rw [h.mem_written hr]

/-- Two steps. -/
theorem Registers.trans (h₁ : Registers own s s₁ new₁) (h₂ : Registers own s₁ s₂ new₂) :
    Registers own s s₂ (new₁ ++ new₂) where
  next_le := h₁.next_le.trans h₂.next_le
  made := by rw [h₂.made, h₁.made, List.append_assoc]
  id_ge r hr := (List.mem_append.1 hr).elim (h₁.id_ge r) fun hr => h₁.next_le.trans (h₂.id_ge r hr)
  id_lt r hr := (List.mem_append.1 hr).elim (fun hr => (h₁.id_lt r hr).trans_le h₂.next_le) (h₂.id_lt r)
  nodup := by
    refine List.pairwise_append.2 ⟨h₁.nodup, h₂.nodup, fun r hr r' hr' => ?_⟩
    have := h₁.id_lt r hr
    have := h₂.id_ge r' hr'
    omega
  write_of r hr := by
    rcases List.mem_append.1 hr with hr | hr
    · exact h₁.write_of r hr
    · exact (h₂.write_of r hr).imp_right h₁.next_le.trans
  write_lt r hr :=
    (List.mem_append.1 hr).elim (fun hr => (h₁.write_lt r hr).trans_le h₂.next_le) (h₂.write_lt r)
  written := by
    obtain ⟨a₁, he₁, ha₁⟩ := h₁.written
    obtain ⟨a₂, he₂, ha₂⟩ := h₂.written
    refine ⟨a₁ ++ a₂, by rw [he₂, he₁, List.append_assoc], fun w hw => ?_⟩
    rcases List.mem_append.1 hw with hw | hw
    · exact ⟨(ha₁ w hw).1, (ha₁ w hw).2.trans_le h₂.next_le⟩
    · exact ⟨h₁.next_le.trans (ha₂ w hw).1, (ha₂ w hw).2⟩
  commitSink := by
    have hsame : new₁.filter (·.Due s₂.written) = new₁.filter (·.Due s₁.written) :=
      List.filter_congr fun r hr => decide_eq_decide.2 (h₂.due_iff (h₁.write_lt r hr))
    rw [h₂.commitSink, h₁.commitSink, List.filter_append, hsame, List.append_assoc]
  rollbackSink := by
    rw [h₂.rollbackSink, h₁.rollbackSink, List.filter_append, List.append_assoc]

/-- A step without the running write. -/
theorem Registers.weaken (h : Registers none s s' new) (own : Option ℕ) : Registers own s s' new :=
  { h with write_of := fun r hr => .inr ((h.write_of r hr).resolve_left nofun) }

/-- One hook of the running write. -/
theorem registers_scheduleAfterCommit {w : ℕ} (hwf : s.WF) (hw : w ∈ s.written) (call : HookCall) :
    Registers (some w) s (s.scheduleAfterCommit w call) [⟨s.next, w, false, call⟩] := by
  have hlt := hwf w hw
  have hdue : HookReg.Due s.written ⟨s.next, w, false, call⟩ := hw
  exact
    { next_le := Nat.le_succ _
      made := rfl
      id_ge := by simp
      id_lt := by simp [scheduleAfterCommit]
      nodup := List.pairwise_singleton _ _
      write_of := by simp
      write_lt := by
        simp only [scheduleAfterCommit, List.mem_singleton, forall_eq]
        omega
      written := ⟨[], (List.append_nil _).symm, fun _ h => nomatch h⟩
      commitSink := by simp [scheduleAfterCommit, hdue]
      rollbackSink := by simp [scheduleAfterCommit] }

theorem registers_scheduleAfterRollback {w : ℕ} (hwf : s.WF) (hw : w ∈ s.written) (call : HookCall) :
    Registers (some w) s (s.scheduleAfterRollback w call) [⟨s.next, w, true, call⟩] := by
  have hlt := hwf w hw
  have hdue : ¬ HookReg.Due s.written ⟨s.next, w, true, call⟩ := fun hd => hd hw
  exact
    { next_le := Nat.le_succ _
      made := rfl
      id_ge := by simp
      id_lt := by simp [scheduleAfterRollback]
      nodup := List.pairwise_singleton _ _
      write_of := by simp
      write_lt := by
        simp only [scheduleAfterRollback, List.mem_singleton, forall_eq]
        omega
      written := ⟨[], (List.append_nil _).symm, fun _ h => nomatch h⟩
      commitSink := by simp [scheduleAfterRollback, hdue]
      rollbackSink := by simp [scheduleAfterRollback] }

theorem registers_elim {w : ℕ} (hwf : s.WF) (hw : w ∈ s.written) (call : Option HookCall) :
    ∃ new, Registers (some w) s (call.elim s (s.scheduleAfterCommit w)) new := by
  cases call with
  | none => exact ⟨[], .refl _ _⟩
  | some call => exact ⟨_, registers_scheduleAfterCommit hwf hw call⟩

/-- A write begins. -/
theorem registers_beginWrite (s : DispatchState) : Registers (some s.next) s s.beginWrite [] :=
  { Registers.refl (some s.next) s with
    next_le := Nat.le_succ _
    id_lt := fun _ h => nomatch h
    write_lt := fun _ h => nomatch h
    written := ⟨[s.next], rfl, by simp [beginWrite]⟩ }

/-- A nested write whose savepoint is released. -/
theorem Registers.release (h : Registers own s.openSavepoint s' new) :
    Registers own s (s.release s') new :=
  { h with
    commitSink := by
      have := h.commitSink
      simp only [openSavepoint, List.nil_append] at this
      simp [DispatchState.release, carrySavepointRollbackHooks, this]
    rollbackSink := by
      have := h.rollbackSink
      simp only [openSavepoint, List.nil_append] at this
      simp [DispatchState.release, carrySavepointRollbackHooks, this] }

/-- A nested write whose savepoint is rolled back: none of its writes is in the transaction. -/
theorem Registers.rollbackTo (h : Registers none s.openSavepoint s' new) (hwf : s.WF) :
    Registers none s (s.rollbackTo s') new := by
  have hrollback := h.rollbackSink
  simp only [openSavepoint, List.nil_append] at hrollback
  have hout : ∀ r ∈ new, r.write ∉ s.written := fun r hr hm => by
    have h₁ := (h.write_of r hr).resolve_left nofun
    have h₂ := hwf _ hm
    simp only [openSavepoint] at h₁
    omega
  have hdue : new.filter (·.Due s.written) = new.filter (·.afterRollback) := by
    refine List.filter_congr fun r hr => ?_
    have := hout r hr
    unfold HookReg.Due
    by_cases hk : r.afterRollback = true <;> simp [hk, this]
  exact
    { h with
      written := ⟨[], (List.append_nil _).symm, fun _ h => nomatch h⟩
      commitSink := by
        simp [DispatchState.rollbackTo, carrySavepointRollbackHooks, hrollback, hdue]
      rollbackSink := by
        simp [DispatchState.rollbackTo, carrySavepointRollbackHooks, hrollback] }

end DispatchState

/-! ## What a write adds to the sinks -/

section
variable {own : Option ℕ} {s s' : DispatchState} {new : List HookReg} {execute : WriteStep}
  {handler lifecycle : ℕ → WriteStep}

/-- Every run of the step registers hooks as it should. -/
def WriteStep.Tidy (own : Option ℕ) (execute : WriteStep) (s : DispatchState) : Prop :=
  ∃ new, DispatchState.Registers own s (execute s).2 new

/-- The program of a running write registers hooks as it should. -/
def TidyProgram (p : ℕ → WriteStep) : Prop :=
  ∀ w s, s.WF → w ∈ s.written → (p w).Tidy (some w) s

/-- A write registers its hooks under its own number. -/
theorem executeWrite_tidy (params : WriteParams) (hh : TidyProgram handler)
    (hl : TidyProgram lifecycle) (hwf : s.WF) :
    (executeWrite params handler lifecycle).Tidy none s := by
  have nothing : ∃ new, DispatchState.Registers none s s new := ⟨[], .refl _ _⟩
  -- what the running write registers is new
  have close : ∀ {s' new}, DispatchState.Registers (some s.next) s s' new →
      ∃ new, DispatchState.Registers none s s' new := fun {s' new} h =>
    ⟨new, { h with write_of := fun r hr => .inr ((h.write_of r hr).elim
      (fun he => (Option.some.inj he).le) id) }⟩
  unfold WriteStep.Tidy executeWrite
  split
  · exact nothing
  · split
    · exact nothing
    · exact nothing
    · have h₀ := DispatchState.registers_beginWrite s
      have hw₀ : s.next ∈ s.beginWrite.written := List.mem_append_right _ (.head _)
      obtain ⟨new₁, h₁⟩ := hh s.next s.beginWrite (h₀.wf hwf) hw₀
      have h₁ := h₀.trans h₁
      dsimp only
      cases hhandler : handler s.next s.beginWrite with
      | mk o s₁ =>
        rw [hhandler] at h₁
        have hw₁ : s.next ∈ s₁.written := by
          obtain ⟨new, h⟩ := hh s.next s.beginWrite (h₀.wf hwf) hw₀
          rw [hhandler] at h
          exact h.subset hw₀
        cases o with
        | failure | thrown => exact close h₁
        | success =>
          obtain ⟨new₂, h₂⟩ := hl s.next s₁ (h₁.wf hwf) hw₁
          have hsub := h₂.subset
          have h₂ := h₁.trans h₂
          dsimp only
          cases hlifecycle : lifecycle s.next s₁ with
          | mk o s₂ =>
            rw [hlifecycle] at h₂ hsub
            have hw₂ := hsub hw₁
            cases o with
            | failure | thrown => exact close h₂
            | success =>
              obtain ⟨new₃, h₃⟩ := DispatchState.registers_elim (h₂.wf hwf) hw₂ params.lifecycle
              have hw₃ := h₃.subset hw₂
              have h₃ := h₂.trans h₃
              obtain ⟨new₄, h₄⟩ := DispatchState.registers_elim (h₃.wf hwf) hw₃ params.job
              have hw₄ := h₄.subset hw₃
              have h₄ := h₃.trans h₄
              exact close (h₄.trans
                (DispatchState.registers_scheduleAfterCommit (h₄.wf hwf) hw₄ params.invalidate))

/-- A nested write moves its hooks to the sinks that are theirs. -/
theorem runNestedWriteInSavepoint_tidy (perCommand released : Bool) (hwf : s.WF)
    (he : execute.Tidy none s.openSavepoint) :
    (runNestedWriteInSavepoint perCommand released execute).Tidy none s := by
  obtain ⟨new, he⟩ := he
  unfold WriteStep.Tidy runNestedWriteInSavepoint
  split
  · exact ⟨[], .refl _ _⟩
  · cases hexec : execute s.openSavepoint with
    | mk o inner =>
      rw [hexec] at he
      cases o with
      | failure | thrown => exact ⟨new, he.rollbackTo hwf⟩
      | success =>
        cases released with
        | true => exact ⟨new, he.release⟩
        | false => exact ⟨new, he.rollbackTo hwf⟩

/-- One step after another. -/
theorem WriteStep.Tidy.next (h : DispatchState.Registers own s s' new) (he : execute.Tidy own s') :
    ∃ new, DispatchState.Registers own s (execute s').2 new := by
  obtain ⟨new', he⟩ := he
  exact ⟨new ++ new', h.trans he⟩

/-- Handlers register hooks as they should, whatever they dispatch and however that ends. -/
theorem Handler.run_tidy (h : Handler) : TidyProgram h.run := by
  induction h with
  | ends o => exact fun w s _ _ => ⟨[], .refl _ _⟩
  | afterCommit call next ih =>
    intro w s hwf hw
    have h₁ := DispatchState.registers_scheduleAfterCommit hwf hw call
    simp only [WriteStep.Tidy, Handler.run]
    exact (ih w _ (h₁.wf hwf) (h₁.subset hw)).next h₁
  | afterRollback call next ih =>
    intro w s hwf hw
    have h₁ := DispatchState.registers_scheduleAfterRollback hwf hw call
    simp only [WriteStep.Tidy, Handler.run]
    exact (ih w _ (h₁.wf hwf) (h₁.subset hw)).next h₁
  | write params handler lifecycle released onSuccess onFailure onThrow hh hl ihs ihf iht =>
    intro w s hwf hw
    obtain ⟨new, h₁⟩ := runNestedWriteInSavepoint_tidy params.perCommand released hwf
      (executeWrite_tidy params hh hl hwf)
    have h₁ := h₁.weaken (some w)
    simp only [WriteStep.Tidy, Handler.run]
    cases hnested : runNestedWriteInSavepoint params.perCommand released
        (executeWrite params handler.run lifecycle.run) s with
    | mk o s' =>
      rw [hnested] at h₁
      cases o with
      | success => exact (ihs w s' (h₁.wf hwf) (h₁.subset hw)).next h₁
      | failure => exact (ihf w s' (h₁.wf hwf) (h₁.subset hw)).next h₁
      | thrown => exact (iht w s' (h₁.wf hwf) (h₁.subset hw)).next h₁

theorem DispatchedWrite.execute_tidy (w : DispatchedWrite) (hwf : s.WF) : w.execute.Tidy none s :=
  executeWrite_tidy w.params w.handler.run_tidy w.lifecycle.run_tidy hwf

theorem executeAll_tidy {steps : List WriteStep} (hsteps : ∀ w ∈ steps, ∀ s, s.WF → w.Tidy none s)
    (hwf : s.WF) : (executeAll steps).Tidy none s := by
  induction steps generalizing s with
  | nil => exact ⟨[], .refl _ _⟩
  | cons w ws ih =>
    obtain ⟨new, h₁⟩ := hsteps w (.head _) s hwf
    simp only [WriteStep.Tidy, executeAll]
    cases hw : w s with
    | mk o s' =>
      rw [hw] at h₁
      cases o with
      | failure | thrown => exact ⟨new, h₁⟩
      | success => exact (ih (fun w hm => hsteps w (.tail _ hm)) (h₁.wf hwf)).next h₁

theorem executeNestedWrite_tidy (cmd : BatchCommand) (hwf : s.WF) :
    (executeNestedWrite cmd).Tidy none s := by
  obtain ⟨write, nested⟩ := cmd
  obtain ⟨new, h₁⟩ := write.execute_tidy hwf
  cases nested with
  | none => exact ⟨new, h₁⟩
  | some nested =>
    obtain ⟨issues, attachable, children⟩ := nested
    cases issues with
    | true => exact ⟨[], .refl _ _⟩
    | false =>
      simp only [WriteStep.Tidy, executeNestedWrite, Bool.false_eq_true, if_false]
      cases hw : write.execute s with
      | mk o s' =>
        rw [hw] at h₁
        cases o with
        | failure | thrown => exact ⟨new, h₁⟩
        | success =>
          cases attachable with
          | false => exact ⟨new, h₁⟩
          | true =>
            refine (executeAll_tidy (fun w hm s hs => ?_) (h₁.wf hwf)).next h₁
            obtain ⟨w, -, rfl⟩ := List.mem_map.1 hm
            exact w.execute_tidy hs

end

/-! ## What a batch runs -/

section
variable {commands : List BatchCommand} {commits : Bool} {hooks : List HookReg} {r : HookReg}

/-- The commands of a batch register hooks as they should. -/
theorem commands_registers (commands : List BatchCommand) : ∃ new,
    DispatchState.Registers none .initial
      (executeAll (commands.map executeNestedWrite) .initial).2 new := by
  refine executeAll_tidy (fun w hm s hs => ?_) fun _ h => nomatch h
  obtain ⟨cmd, -, rfl⟩ := List.mem_map.1 hm
  exact executeNestedWrite_tidy cmd hs

/-- Every hook has its own number, and a batch flushes the hooks that are due. -/
theorem runBatch_ran (commands : List BatchCommand) (commits : Bool) :
    (runBatch commands commits).made.Nodup ∧
      (runBatch commands commits).ran = flushHooks (runBatch commands commits).due := by
  obtain ⟨new, h⟩ := commands_registers commands
  unfold runBatch BatchEnd.due
  cases hc : executeAll (commands.map executeNestedWrite) .initial with
  | mk o s =>
    rw [hc] at h
    have hmade : s.made = new := h.made
    have hnodup : new.Nodup := h.nodup.imp fun hne he => hne (congrArg HookReg.id he)
    have hrollback : s.rollbackSink = new.filter (·.Due []) := by
      refine (show s.rollbackSink = _ from h.rollbackSink).trans (List.filter_congr fun r _ => ?_)
      unfold HookReg.Due
      by_cases hk : r.afterRollback = true <;> simp [hk]
    have hcommit : s.commitSink = new.filter (·.Due s.written) := h.commitSink
    cases o with
    | failure | thrown => simp [hmade, hnodup, hrollback]
    | success =>
      cases commits with
      | true => simp [hmade, hnodup, hcommit]
      | false => simp [hmade, hnodup, hrollback]

/-- The flush calls the hooks up to the first that throws. -/
theorem flushHooks_prefix_self (hooks : List HookReg) : flushHooks hooks <+: hooks := by
  induction hooks with
  | nil => exact List.prefix_refl _
  | cons r hooks ih =>
    unfold flushHooks
    split
    · exact (List.prefix_cons_inj r).2 ih
    · exact (List.prefix_cons_inj r).2 (List.nil_prefix)

/-- The flush calls all hooks if and only if none but the last throws. -/
theorem flushHooks_eq_iff : flushHooks hooks = hooks ↔ ∀ r ∈ hooks.dropLast, r.call = .promise := by
  induction hooks with
  | nil => simp [flushHooks]
  | cons r hooks ih =>
    cases hooks with
    | nil =>
      unfold flushHooks
      split <;> simp [flushHooks]
    | cons r' hooks =>
      rw [List.dropLast_cons_cons, List.forall_mem_cons, ← ih]
      obtain ⟨id, write, afterRollback, call⟩ := r
      cases call with
      | promise | throws => simp [flushHooks]

/-- None but the last hook that runs throws. -/
theorem flushHooks_dropLast (hooks : List HookReg) : ∀ r ∈ (flushHooks hooks).dropLast, r.call = .promise := by
  induction hooks with
  | nil => exact fun _ hr => nomatch hr
  | cons r hooks ih =>
    obtain ⟨id, write, afterRollback, call⟩ := r
    cases call with
    | throws => simp [flushHooks]
    | promise =>
      cases hrest : flushHooks hooks with
      | nil => simp [flushHooks, hrest]
      | cons r' rest =>
        rw [hrest] at ih
        simp only [flushHooks, hrest, List.dropLast_cons_cons, List.forall_mem_cons, true_and]
        exact ih

/-- Whatever throws, the hooks that run are the first of those that are due, each once, up to the first one that
throws. -/
theorem runBatch_ran_prefix (commands : List BatchCommand) (commits : Bool) :
    (runBatch commands commits).due.Nodup ∧ (runBatch commands commits).ran <+: (runBatch commands commits).due ∧
      (∀ r ∈ (runBatch commands commits).ran.dropLast, r.call = .promise) ∧
      ((runBatch commands commits).ran = (runBatch commands commits).due ∨
        ∃ r ∈ (runBatch commands commits).ran.getLast?, r.call = .throws) := by
  obtain ⟨hnodup, hran⟩ := runBatch_ran commands commits
  refine ⟨hnodup.filter _, hran ▸ flushHooks_prefix_self _, hran ▸ flushHooks_dropLast _, ?_⟩
  rw [hran]
  induction (runBatch commands commits).due with
  | nil => exact .inl rfl
  | cons r hooks ih =>
    unfold flushHooks
    split
    · rcases ih with ih | ⟨r', hr', hcall⟩
      · exact .inl (congrArg _ ih)
      · exact .inr ⟨r', by simp_all [List.getLast?_cons], hcall⟩
    · next hcall => exact .inr ⟨r, rfl, hcall⟩

/-- Every hook that is due runs once, and no other runs, if and only if of the hooks that are due none but
the last throws. -/
theorem workMatches_iff (commands : List BatchCommand) (commits : Bool) :
    WorkMatches (runBatch commands commits) ↔
      ∀ r ∈ (runBatch commands commits).due.dropLast, r.call = .promise := by
  obtain ⟨hnodup, hran⟩ := runBatch_ran commands commits
  generalize runBatch commands commits = e at hnodup hran
  have hdue : e.due.Nodup := hnodup.filter _
  have hsub := flushHooks_prefix_self e.due
  have hmem : ∀ r ∈ e.made, r ∈ e.due ↔ r.Due e.committed := fun r hr => by
    simp [BatchEnd.due, hr]
  rw [← flushHooks_eq_iff]
  constructor
  · intro h
    -- a prefix that lacks no element is the whole
    refine hsub.eq_of_length (le_antisymm hsub.length_le ?_)
    refine (List.subperm_of_subset hdue fun r hr => ?_).length_le
    have hm := (List.mem_filter.1 hr).1
    have hcount := h r hm
    rw [if_pos ((hmem r hm).1 hr), hran] at hcount
    exact List.count_pos_iff.1 (hcount ▸ Nat.one_pos)
  · intro h r hr
    rw [hran, h]
    by_cases hd : r.Due e.committed
    · rw [if_pos hd]
      exact List.count_eq_one_of_mem hdue ((hmem r hr).2 hd)
    · rw [if_neg hd]
      exact List.count_eq_zero.2 fun hm => hd ((hmem r hr).1 hm)

end

/-! ## A hook that throws -/

/-- A write of an ordinary handler in a program with a job runner. -/
def plainWrite (handler : Handler) : DispatchedWrite where
  params :=
    { perCommand := false, gates := .success, lifecycle := none, job := some .promise,
      invalidate := .promise, leaks := false }
  handler
  lifecycle := .ends .success

/-- The jobs of a committed write are not started when a hook of its handler throws first. -/
theorem afterCommit_throws :
    ¬ WorkMatches (runBatch [⟨plainWrite (.afterCommit .throws (.ends .success)), none⟩] true) := by
  decide

end Kumiko
