import Kumiko.Pipeline.BatchDispatch

/-!
# All or nothing of a batch

What every run of `runBatch` keeps, whatever fails: a batch commits everything its commands wrote or nothing,
gives its reservations back once, and releases its claim on the request id only where nothing was committed
(`batch_of_run`). A COMMIT that fails may have been applied.
-/

namespace Kumiko

open Transition

variable {E : Type*}

/-! ## What a call has done -/

/-- The first commands, this many, all succeeded. -/
def Succeeded (n : ℕ) (results : List WriteResult) : Prop :=
  results.length = n ∧ ∀ result ∈ results, result.isSuccess = true

instance (n : ℕ) (results : List WriteResult) : Decidable (Succeeded n results) :=
  inferInstanceAs (Decidable (_ ∧ _))

/-- The COMMIT was applied. -/
def CommitOutcome.applied : CommitOutcome → Bool
  | .ok => true
  | .failed _ applied => applied

def CommitOutcome.isOk : CommitOutcome → Bool
  | .ok => true
  | .failed .. => false

/-- The call has ended. -/
def BatchPhase.ended : BatchPhase → Bool
  | .returned _ | .thrown => true
  | _ => false

/-- The call executes its batch. -/
def BatchPhase.executing : BatchPhase → Bool
  | .reserving _ | .beginning | .running _ | .committing => true
  | _ => false

namespace BatchRun

variable (run : BatchRun E)

def applied : Bool := run.commit.any (·.applied)

/-- What of the call's writes is committed. -/
def landed (direct : Bool) : List E := if direct then run.made else if run.applied then run.made else []

/-- The batch is known to be done: its COMMIT was answered, or all of its commands succeeded where there is none. -/
def confirmed (direct : Bool) (n : ℕ) : Bool :=
  if direct then decide (Succeeded n run.results) else run.commit.any (·.isOk)

/-- Everything taken is on the releases. -/
def Holds : Prop := run.released = [] ∧ releaseAll run.releases = run.acquired.reverse

/-- No command has run. -/
def Untouched : Prop := run.made = [] ∧ run.pending = [] ∧ run.results = [] ∧ run.commit = none ∧ run.fired = []

/-- What was taken is kept by a batch that is done, and was given back by any other. -/
def Settled (direct : Bool) (n : ℕ) : Prop :=
  run.released = if run.confirmed direct n then [] else run.acquired.reverse

/-- What a call keeps in each phase. -/
def PhaseOk (direct : Bool) (n : ℕ) : BatchPhase → Prop
  | .idle => run.Holds ∧ run.Untouched ∧ run.acquired = []
  | .checking => run.Holds ∧ run.Untouched ∧ run.acquired = [] ∧ 0 < n
  | .reserving _ | .beginning => run.Holds ∧ run.Untouched ∧ 0 < n
  | .running index =>
    run.Holds ∧ Succeeded index run.results ∧ index < n ∧ run.commit = none ∧ run.fired = [] ∧
      (direct = false → run.pending = run.made)
  | .committing =>
    run.Holds ∧ Succeeded n run.results ∧ direct = false ∧ run.commit = none ∧ run.fired = [] ∧
      run.pending = run.made
  | .releasing todo next =>
    run.released ++ todo = run.acquired.reverse ∧ run.confirmed direct n = false ∧ run.fired = [] ∧
      ∀ result, next = .finish result true → run.landed direct = []
  | .flushing => run.Holds ∧ run.confirmed direct n = true
  | .finishing _ retryable => run.Settled direct n ∧ (retryable = true → run.landed direct = [])
  | .returned _ | .thrown => run.Settled direct n
  | .dead => run.released <+: run.acquired.reverse ∧ (run.confirmed direct n = true → run.released = [])

end BatchRun

namespace BatchState

variable (ctx : DispatchContext) (req : ℕ → BatchRequest) (s : BatchState E)

/-- What a call keeps, with what it has committed. -/
structure RunOk (req : BatchRequest) (run : BatchRun E) (writes : List E) : Prop where
  writes : writes = run.landed (ctx.direct req)
  commit : run.commit.isSome = true → ctx.direct req = false ∧ Succeeded req.commands.length run.results
  fired : run.fired = [] ∨ run.confirmed (ctx.direct req) req.commands.length = true
  phase : run.PhaseOk (ctx.direct req) req.commands.length run.phase

/-- What every run maintains. -/
structure BatchInv (s : BatchState E) : Prop where
  guard : s.guard.GuardInv
  stored : ∀ r token answer, .stored r token answer ∈ s.guard.history →
    ∃ result, answer = some (JsonTree.ofBatch result)
  runs : ∀ r, RunOk ctx (req r) (s.runs r) (s.writesOf r)
  released : ∀ r token, .released r token ∈ s.guard.history →
    (∃ answer, (s.runs r).phase = .returned answer) ∧ s.writesOf r = []

/-- There is a record of the call under the request id. -/
def Recorded (r : ℕ) : Prop :=
  (∃ token, recordAfter s.guard.history = .claim r token) ∨ ∃ answer, recordAfter s.guard.history = .result r answer

/-- What a run of the dispatcher guarantees. -/
structure BatchSafe (s : BatchState E) : Prop where
  /-- A batch in a transaction of its own is committed as a whole, after all its commands have succeeded, or not at
  all. -/
  atomic : ∀ r, ctx.direct (req r) = false → s.writesOf r = [] ∨
    s.writesOf r = (s.runs r).made ∧ Succeeded (req r).commands.length (s.runs r).results
  /-- A batch that is known to be done is committed. -/
  committed : ∀ r, (s.runs r).confirmed (ctx.direct (req r)) (req r).commands.length = true →
    s.writesOf r = (s.runs r).made
  /-- Each reservation is given back once at most, last first. -/
  order : ∀ r, (s.runs r).released <+: (s.runs r).acquired.reverse
  /-- None is given back once the batch is known to be done. -/
  kept : ∀ r, (s.runs r).confirmed (ctx.direct (req r)) (req r).commands.length = true → (s.runs r).released = []
  /-- All are given back when it ends otherwise. -/
  settled : ∀ r, (s.runs r).phase.ended = true →
    (s.runs r).confirmed (ctx.direct (req r)) (req r).commands.length = false →
      (s.runs r).released = (s.runs r).acquired.reverse
  /-- The work for after the commit runs only then. -/
  hooks : ∀ r, (s.runs r).fired ≠ [] → (s.runs r).confirmed (ctx.direct (req r)) (req r).commands.length = true
  /-- The claim is released only by a call of which nothing is committed. -/
  claim : ∀ r token, .released r token ∈ s.guard.history → s.writesOf r = []
  /-- No call that carries the request id starts to execute while there is a record under it. -/
  retry : ∀ a s', step ctx req s a = some s' → ∀ r, ctx.keyed (req r) = true →
    (s.runs r).phase.executing = false → (s'.runs r).phase.executing = true → ∀ r', ¬ s.Recorded r'

end BatchState

/-! ## The key -/

/-- A store or a release on the history is one of this request to Redis. -/
def GuardEvent.Of (a : GuardAct) : GuardEvent → Prop
  | .stored request _ answer => a = .store request answer
  | .released request _ => a = .release request
  | .claimed .. | .waited _ | .answered .. | .expired => True

theorem GuardedKey.history_of_step {g g' : GuardedKey} {a : GuardAct} (hs : g.step a = some g') :
    ∀ e ∈ g'.history, e ∈ g.history ∨ e.Of a := by
  have hgoto {events : List GuardEvent} (hevents : ∀ e ∈ events, e.Of a) :
      ∀ e ∈ g.history ++ events, e ∈ g.history ∨ e.Of a := fun e he =>
    (List.mem_append.1 he).imp id (hevents e)
  have hsetNx {request : ℕ} {token : String} {lost : RequestPhase} :
      ∀ e ∈ (g.setNx request token lost).history, e ∈ g.history ∨ e.Of a := by
    unfold GuardedKey.setNx
    split
    · exact hgoto fun e he => by cases List.mem_singleton.1 he; trivial
    · exact hgoto fun e he => nomatch he
  have hlook {request : ℕ} {absent pending : RequestPhase} :
      ∀ e ∈ (g.look request absent pending).history, e ∈ g.history ∨ e.Of a := by
    unfold GuardedKey.look
    split
    · exact hgoto fun e he => nomatch he
    · split
      · exact hgoto fun e he => by cases List.mem_singleton.1 he; trivial
      · exact hgoto fun e he => by cases List.mem_singleton.1 he; trivial
  cases a with
  | check request =>
    simp only [GuardedKey.step] at hs
    split at hs
    · cases hs
      exact hgoto fun e he => nomatch he
    · cases hs
  | setNx request id =>
    simp only [GuardedKey.step] at hs
    split at hs
    · cases hs
      exact hsetNx
    · cases hs
      exact hsetNx
    · cases hs
      exact hsetNx
    · cases hs
  | get request =>
    simp only [GuardedKey.step] at hs
    split at hs
    · cases hs
      exact hlook
    · cases hs
      exact hlook
    · cases hs
  | deadline request =>
    simp only [GuardedKey.step] at hs
    split at hs
    · cases hs
      exact hgoto fun e he => nomatch he
    · cases hs
  | store | release =>
    simp only [GuardedKey.step] at hs
    split at hs
    · split at hs
      · cases hs
        exact hgoto fun e he => by cases List.mem_singleton.1 he; rfl
      · cases hs
        exact fun e he => .inl he
    · cases hs
  | expire =>
    simp only [GuardedKey.step] at hs
    split at hs
    · cases hs
    · cases hs
      exact fun e he => (List.mem_append.1 he).imp id fun he => by cases List.mem_singleton.1 he; trivial
  | crash request =>
    cases hs
    exact hgoto fun e he => nomatch he

/-- A result on the record was stored. -/
theorem stored_of_record {h : List GuardEvent} {r : ℕ} {answer : Option JsonTree}
    (hr : recordAfter h = .result r answer) : ∃ token, .stored r token answer ∈ h := by
  induction h using List.reverseRecOn with
  | nil => cases hr
  | append_singleton h e ih =>
    rw [recordAfter_concat] at hr
    cases e with
    | stored =>
      cases hr
      exact ⟨_, List.mem_append_right _ (.head _)⟩
    | waited | answered =>
      obtain ⟨token, hmem⟩ := ih hr
      exact ⟨token, List.mem_append_left _ hmem⟩
    | claimed | released | expired => cases hr

/-- A key that is not set stands for no record. -/
theorem GuardedKey.GuardInv.free_of_value {g : GuardedKey} (h : g.GuardInv) (hvalue : g.value = none) :
    recordAfter g.history = .free := by
  have hrecord := h.value
  rw [hvalue] at hrecord
  cases hr : recordAfter g.history with
  | free => rfl
  | claim | result =>
    rw [hr] at hrecord
    cases hrecord

/-- A value that is no marker is the text of a result that was stored. -/
theorem GuardedKey.GuardInv.stored_of_value {g : GuardedKey} (h : g.GuardInv) {value : String}
    (hvalue : g.value = some value) (hp : isPending value = false) :
    ∃ r token answer, .stored r token answer ∈ g.history ∧ value = storedText answer := by
  have hrecord := h.value
  rw [hvalue] at hrecord
  cases hr : recordAfter g.history with
  | free =>
    rw [hr] at hrecord
    cases hrecord
  | claim r token =>
    rw [hr] at hrecord
    obtain rfl : value = token := Option.some.inj hrecord
    rw [(h.tokens r value (claimed_of_record h.lawful hr)).2] at hp
    cases hp
  | result r answer =>
    rw [hr] at hrecord
    obtain ⟨token, hmem⟩ := stored_of_record hr
    exact ⟨r, token, answer, hmem, Option.some.inj hrecord⟩

/-- A request of a check finds the key free, finds a result, or has to wait or give up. -/
theorem GuardedKey.answer_of_check {g g' : GuardedKey} {a : GuardAct} {r : ℕ} (hcheck : a.checkOf r = true)
    (hs : g.step a = some g') :
    g.value = none ∨ (∃ text, g'.requests r = .cached text ∧ g.value = some text ∧ isPending text = false) ∨
      ∀ token text, g'.requests r ≠ .acquired token ∧ g'.requests r ≠ .cached text := by
  have hsetNx {token : String} {lost : RequestPhase} (hlost : lost = .poll ∨ lost = .failed) :
      g.value = none ∨ ∀ token' text, (g.setNx r token lost).requests r ≠ .acquired token' ∧
        (g.setNx r token lost).requests r ≠ .cached text := by
    unfold GuardedKey.setNx
    split
    · next hvalue => exact .inl hvalue
    · obtain rfl | rfl := hlost
      · exact .inr fun token' text => by simp [GuardedKey.goto]
      · exact .inr fun token' text => by simp [GuardedKey.goto]
  have hlook {absent pending : RequestPhase} (hpending : pending = .poll ∨ pending = .lastResort) :
      g.value = none ∨
        (∃ text, (g.look r absent pending).requests r = .cached text ∧ g.value = some text ∧ isPending text = false) ∨
          ∀ token text, (g.look r absent pending).requests r ≠ .acquired token ∧
            (g.look r absent pending).requests r ≠ .cached text := by
    unfold GuardedKey.look
    split
    · next hvalue => exact .inl hvalue
    · next value hvalue =>
      split
      · obtain rfl | rfl := hpending
        · exact .inr (.inr fun token text => by simp [GuardedKey.goto])
        · exact .inr (.inr fun token text => by simp [GuardedKey.goto])
      · next hp => exact .inr (.inl ⟨value, by simp [GuardedKey.goto], hvalue, by simpa using hp⟩)
  cases a with
  | check | store | release | expire | crash => cases hcheck
  | deadline request =>
    obtain rfl : request = r := of_decide_eq_true hcheck
    simp only [GuardedKey.step] at hs
    split at hs
    · cases hs
      exact .inr (.inr fun token text => by simp [GuardedKey.goto])
    · cases hs
  | setNx request id =>
    obtain rfl : request = r := of_decide_eq_true hcheck
    simp only [GuardedKey.step] at hs
    split at hs
    · cases hs
      exact (hsetNx (.inl rfl)).imp_right .inr
    · cases hs
      exact (hsetNx (.inl rfl)).imp_right .inr
    · cases hs
      exact (hsetNx (.inr rfl)).imp_right .inr
    · cases hs
  | get request =>
    obtain rfl : request = r := of_decide_eq_true hcheck
    simp only [GuardedKey.step] at hs
    split at hs
    · cases hs
      exact hlook (.inl rfl)
    · cases hs
      exact hlook (.inr rfl)
    · cases hs

namespace BatchState

/-! ## Frames -/

section
variable {ctx : DispatchContext} {req : ℕ → BatchRequest} {s : BatchState E} {r r' : ℕ} {run : BatchRun E}

@[simp] theorem setRun_writesOf : (s.setRun r run).writesOf r' = s.writesOf r' := rfl

theorem setRun_self : (s.setRun r run).runs r = run := Function.update_self ..

theorem setRun_of_ne (h : r' ≠ r) : (s.setRun r run).runs r' = s.runs r' := Function.update_of_ne h ..

theorem land_self (writes : List E) : (s.land r writes).writesOf r = s.writesOf r ++ writes := by
  have hall : (writes.map (r, ·)).filter (fun w => decide (w.1 = r)) = writes.map (r, ·) := by
    rw [List.filter_eq_self]
    intro w hw
    obtain ⟨e, -, rfl⟩ := List.mem_map.1 hw
    exact decide_eq_true rfl
  rw [writesOf, land, List.filter_append, hall, List.map_append, List.map_map]
  simp [writesOf, Function.comp_def]

theorem land_of_ne (h : r' ≠ r) (writes : List E) : (s.land r writes).writesOf r' = s.writesOf r' := by
  have hnone : (writes.map (r, ·)).filter (fun w => decide (w.1 = r')) = [] := by
    rw [List.filter_eq_nil_iff]
    intro w hw
    obtain ⟨e, -, rfl⟩ := List.mem_map.1 hw
    simpa using Ne.symm h
  rw [writesOf, land, List.filter_append, hnone, List.append_nil]
  rfl

/-- A call that has not returned goes on, and commits something or not. -/
theorem BatchInv.goOn (h : BatchInv ctx req s) (hphase : ∀ answer, (s.runs r).phase ≠ .returned answer)
    (writes : List E) (hrun : RunOk ctx (req r) run (s.writesOf r ++ writes)) :
    BatchInv ctx req ((s.setRun r run).land r writes) := by
  refine ⟨h.guard, h.stored, fun r' => ?_, fun r' token hmem => ?_⟩
  · rcases eq_or_ne r' r with rfl | hne
    · rw [land_self, setRun_writesOf]
      simpa only [land, setRun_self] using hrun
    · rw [land_of_ne hne, setRun_writesOf]
      simpa only [land, setRun_of_ne hne] using h.runs r'
  · obtain ⟨⟨answer, hreturned⟩, hnone⟩ := h.released r' token hmem
    have hne : r' ≠ r := by
      rintro rfl
      exact hphase answer hreturned
    rw [land_of_ne hne, setRun_writesOf]
    exact ⟨⟨answer, by simpa only [land, setRun_of_ne hne] using hreturned⟩, hnone⟩

theorem BatchInv.setRun (h : BatchInv ctx req s) (hphase : ∀ answer, (s.runs r).phase ≠ .returned answer)
    (hrun : RunOk ctx (req r) run (s.writesOf r)) : BatchInv ctx req (s.setRun r run) := by
  have hgo := h.goOn hphase [] (by rwa [List.append_nil])
  simpa only [land, List.map_nil, List.append_nil] using hgo

/-- A request to Redis, which stores the text of a result, or releases the claim of a call that is through. -/
theorem BatchInv.redis (h : BatchInv ctx req s) {a : GuardAct} {g : GuardedKey} (hids : s.guard.FreshIds a)
    (hstep : s.guard.step a = some g)
    (hstore : ∀ r' answer, a = .store r' answer → ∃ result, answer = some (JsonTree.ofBatch result))
    (hrelease : ∀ r', a = .release r' → (∃ answer, (s.runs r').phase = .returned answer) ∧ s.writesOf r' = []) :
    BatchInv ctx req { s with guard := g } := by
  refine ⟨h.guard.step hids hstep, fun r' token answer hmem => ?_, h.runs, fun r' token hmem => ?_⟩
  · rcases GuardedKey.history_of_step hstep _ hmem with hmem | hof
    · exact h.stored r' token answer hmem
    · exact hstore r' answer hof
  · rcases GuardedKey.history_of_step hstep _ hmem with hmem | hof
    · exact h.released r' token hmem
    · exact hrelease r' hof

end

/-! ## Calls keep what they have -/

section
variable {ctx : DispatchContext} {req : BatchRequest} {run run' : BatchRun E} {writes : List E} {direct : Bool}
  {n : ℕ}

theorem confirmed_of_length (hcommit : run.commit = none) (h : run.results.length < n) :
    run.confirmed direct n = false := by
  unfold BatchRun.confirmed
  cases direct with
  | false => rw [hcommit]; rfl
  | true => exact decide_eq_false fun hall => absurd hall.1 (by omega)

theorem untouched_confirmed (h : run.Untouched) (hn : 0 < n) : run.confirmed direct n = false :=
  confirmed_of_length h.2.2.2.1 (by rw [h.2.2.1]; exact hn)

theorem landed_of_commit (hcommit : run.commit = none) : run.landed false = [] := by
  rw [BatchRun.landed, BatchRun.applied, hcommit]
  rfl

theorem untouched_landed (h : run.Untouched) : run.landed direct = [] := by
  cases direct with
  | false => exact landed_of_commit h.2.2.2.1
  | true => exact h.1

/-- A call that goes to another phase. -/
theorem RunOk.goTo (h : RunOk ctx req run writes) (hmade : run'.made = run.made) (hcommit : run'.commit = run.commit)
    (hresults : run'.results = run.results) (hfired : run'.fired = run.fired)
    (hphase : run'.PhaseOk (ctx.direct req) req.commands.length run'.phase) : RunOk ctx req run' writes := by
  have hlanded : run'.landed (ctx.direct req) = run.landed (ctx.direct req) := by
    rw [BatchRun.landed, BatchRun.applied, hmade, hcommit]
    rfl
  have hconfirmed : run'.confirmed (ctx.direct req) req.commands.length =
      run.confirmed (ctx.direct req) req.commands.length := by
    rw [BatchRun.confirmed, hcommit, hresults]
    rfl
  refine ⟨by rw [hlanded]; exact h.writes, ?_, ?_, hphase⟩
  · rw [hcommit, hresults]
    exact h.commit
  · rw [hfired, hconfirmed]
    exact h.fired

/-- A batch that fails releases what it holds. -/
theorem phaseOk_fail {next : AfterRelease} (hholds : run.Holds) (hconfirmed : run.confirmed direct n = false)
    (hfired : run.fired = []) (hretry : ∀ result, next = .finish result true → run.landed direct = []) :
    (DispatchContext.fail run next).PhaseOk direct n (.releasing (releaseAll run.releases) next) :=
  ⟨by
    have hreleased : (DispatchContext.fail run next).released = [] := hholds.1
    rw [hreleased, List.nil_append]
    exact hholds.2, hconfirmed, hfired, hretry⟩

/-- In every phase what was given back is the end of what was taken, and nothing of a batch that is done. -/
theorem phaseOk_order {phase : BatchPhase} (h : run.PhaseOk direct n phase) :
    run.released <+: run.acquired.reverse ∧ (run.confirmed direct n = true → run.released = []) := by
  have hnone (hholds : run.Holds) :
      run.released <+: run.acquired.reverse ∧ (run.confirmed direct n = true → run.released = []) :=
    ⟨hholds.1 ▸ List.nil_prefix, fun _ => hholds.1⟩
  have hsettled (hsettled : run.Settled direct n) :
      run.released <+: run.acquired.reverse ∧ (run.confirmed direct n = true → run.released = []) := by
    unfold BatchRun.Settled at hsettled
    cases hc : run.confirmed direct n with
    | true =>
      rw [hc, if_pos rfl] at hsettled
      exact ⟨hsettled ▸ List.nil_prefix, fun _ => hsettled⟩
    | false =>
      rw [hc, if_neg Bool.false_ne_true] at hsettled
      exact ⟨hsettled ▸ List.prefix_refl _, by simp⟩
  cases phase with
  | idle | checking | reserving | beginning | running | committing | flushing => exact hnone h.1
  | releasing todo next => exact ⟨⟨todo, h.1⟩, fun hc => by rw [h.2.1] at hc; cases hc⟩
  | finishing => exact hsettled h.1
  | returned | thrown => exact hsettled h
  | dead => exact h

/-- The phase after the check. -/
theorem phaseOk_afterCheck (hholds : run.Holds) (huntouched : run.Untouched) (hnone : run.acquired = [])
    (hn : 0 < n) (token : Option String) : (ctx.afterCheck req run token).PhaseOk direct n (ctx.afterCheck req run token).phase := by
  unfold DispatchContext.afterCheck
  split
  · refine ⟨?_, by simp⟩
    have hreleased : run.released = if run.confirmed direct n then [] else run.acquired.reverse := by
      rw [hholds.1, hnone, List.reverse_nil, ite_self]
    exact hreleased
  · exact ⟨hholds, huntouched, hn⟩

end

/-! ## One lemma for each action -/

section
variable {ctx : DispatchContext} {req : ℕ → BatchRequest} {s s' : BatchState E} {r : ℕ}

theorem not_returned {phase : BatchPhase} (hp : (s.runs r).phase = phase) (hne : ∀ answer, phase ≠ .returned answer)
    (answer : JsonTree) : (s.runs r).phase ≠ .returned answer :=
  hp ▸ hne answer

/-- What the call keeps in the phase it is in. -/
theorem BatchInv.phase (h : BatchInv ctx req s) {phase : BatchPhase} (hp : (s.runs r).phase = phase) :
    (s.runs r).PhaseOk (ctx.direct (req r)) (req r).commands.length phase := hp ▸ (h.runs r).phase

/-- The call goes to another phase, and its writes, results and COMMIT stay as they are. -/
theorem BatchInv.goTo (h : BatchInv ctx req s) {run : BatchRun E}
    (hphase : ∀ answer, (s.runs r).phase ≠ .returned answer) (hmade : run.made = (s.runs r).made)
    (hcommit : run.commit = (s.runs r).commit) (hresults : run.results = (s.runs r).results)
    (hfired : run.fired = (s.runs r).fired)
    (hok : run.PhaseOk (ctx.direct (req r)) (req r).commands.length run.phase) : BatchInv ctx req (s.setRun r run) :=
  h.setRun hphase ((h.runs r).goTo hmade hcommit hresults hfired hok)

theorem afterCheck_fields (ctx : DispatchContext) (req : BatchRequest) (run : BatchRun E) (token : Option String) :
    (ctx.afterCheck req run token).made = run.made ∧ (ctx.afterCheck req run token).commit = run.commit ∧
      (ctx.afterCheck req run token).results = run.results ∧
      (ctx.afterCheck req run token).fired = run.fired := by
  unfold DispatchContext.afterCheck
  split
  all_goals exact ⟨rfl, rfl, rfl, rfl⟩

theorem BatchInv.dispatch (h : BatchInv ctx req s) (hs : s.dispatch ctx req r = some s') :
    BatchInv ctx req s' := by
  unfold BatchState.dispatch at hs
  cases hp : (s.runs r).phase with
  | idle =>
    obtain ⟨hholds, huntouched, hnone⟩ := h.phase hp
    have hreturned := not_returned hp nofun
    rw [hp] at hs
    simp only at hs
    split at hs
    · cases hs
      refine h.goTo hreturned rfl rfl rfl rfl ?_
      show (s.runs r).released = if _ then [] else (s.runs r).acquired.reverse
      rw [hholds.1, hnone, List.reverse_nil, ite_self]
    · next hcommands =>
      have hn : 0 < (req r).commands.length := List.length_pos_of_ne_nil hcommands
      split at hs
      · obtain ⟨g, hg, rfl⟩ := Option.map_eq_some_iff.1 hs
        have hchecking : BatchInv ctx req (s.setRun r { s.runs r with phase := .checking }) :=
          h.goTo hreturned rfl rfl rfl rfl ⟨hholds, huntouched, hnone, hn⟩
        exact hchecking.redis (a := .check r) trivial hg (fun _ _ ha => nomatch ha) (fun _ ha => nomatch ha)
      · cases hs
        obtain ⟨hmade, hcommit, hresults, hfired⟩ := afterCheck_fields ctx (req r) (s.runs r) none
        exact h.goTo hreturned hmade hcommit hresults hfired (phaseOk_afterCheck hholds huntouched hnone hn none)
  | _ =>
    rw [hp] at hs
    cases hs

/-- What the check makes of the call. -/
theorem proceed_cases (ctx : DispatchContext) (req : BatchRequest) (run : BatchRun E) (phase : RequestPhase) :
    (∃ token, ctx.proceed req run phase = ctx.afterCheck req run token) ∨ ctx.proceed req run phase = run ∨
      ∃ answer, ctx.proceed req run phase = { run with phase := answer } ∧ answer.ended = true := by
  cases phase with
  | acquired token => exact .inl ⟨some token, rfl⟩
  | cached text =>
    simp only [DispatchContext.proceed]
    split
    · exact .inr (.inr ⟨_, rfl, rfl⟩)
    · exact .inl ⟨none, rfl⟩
  | failed => exact .inr (.inr ⟨_, rfl, rfl⟩)
  | _ => exact .inr (.inl rfl)

theorem BatchInv.check (h : BatchInv ctx req s) {a : GuardAct} (hids : s.guard.FreshIds a)
    (hs : s.check ctx req r a = some s') : BatchInv ctx req s' := by
  unfold BatchState.check at hs
  cases hp : (s.runs r).phase with
  | checking =>
    obtain ⟨hholds, huntouched, hnone, hn⟩ := h.phase hp
    have hreturned := not_returned hp nofun
    rw [hp] at hs
    simp only at hs
    split at hs
    · next hcheck =>
      obtain ⟨g, hg, rfl⟩ := Option.map_eq_some_iff.1 hs
      have hgo : BatchInv ctx req (s.setRun r (ctx.proceed (req r) (s.runs r) (g.requests r))) := by
        obtain ⟨token, hproceed⟩ | hproceed | ⟨answer, hproceed, hended⟩ :=
          proceed_cases ctx (req r) (s.runs r) (g.requests r)
        · rw [hproceed]
          obtain ⟨hmade, hcommit, hresults, hfired⟩ := afterCheck_fields ctx (req r) (s.runs r) token
          exact h.goTo hreturned hmade hcommit hresults hfired (phaseOk_afterCheck hholds huntouched hnone hn token)
        · rw [hproceed]
          exact h.goTo hreturned rfl rfl rfl rfl (h.runs r).phase
        · rw [hproceed]
          refine h.goTo hreturned rfl rfl rfl rfl ?_
          have hsettled : { s.runs r with phase := answer }.Settled (ctx.direct (req r)) (req r).commands.length := by
            show (s.runs r).released = if _ then [] else (s.runs r).acquired.reverse
            rw [hholds.1, hnone, List.reverse_nil, ite_self]
          cases answer with
          | returned | thrown => exact hsettled
          | _ => cases hended
      refine hgo.redis hids hg (fun r' answer ha => ?_) (fun r' ha => ?_)
      · rw [ha] at hcheck
        cases hcheck
      · rw [ha] at hcheck
        cases hcheck
    · cases hs
  | _ =>
    rw [hp] at hs
    cases hs

/-- The first command runs in a call that has done nothing yet. -/
theorem phaseOk_nextCommand_zero {run : BatchRun E} {req : BatchRequest} (hholds : run.Holds)
    (huntouched : run.Untouched) (hn : 0 < req.commands.length) {direct : Bool} :
    run.PhaseOk direct req.commands.length (ctx.nextCommand req 0) := by
  obtain ⟨hmade, hpending, hresults, hcommit, hfired⟩ := huntouched
  rw [DispatchContext.nextCommand, if_pos hn]
  exact ⟨hholds, ⟨by rw [hresults]; rfl, by rw [hresults]; exact nofun⟩, hn, hcommit, hfired,
    fun _ => by rw [hpending, hmade]⟩

theorem BatchInv.reserve (h : BatchInv ctx req s) {run : PreTransactionRun}
    (hs : s.reserve ctx req r run = some s') : BatchInv ctx req s' := by
  unfold BatchState.reserve at hs
  cases hp : (s.runs r).phase with
  | reserving index =>
    obtain ⟨hholds, huntouched, hn⟩ := h.phase hp
    have hreturned := not_returned hp nofun
    have hnext : BatchInv ctx req (s.setRun r { s.runs r with phase := .reserving (index + 1) }) :=
      h.goTo hreturned rfl rfl rfl rfl ⟨hholds, huntouched, hn⟩
    rw [hp] at hs
    simp only at hs
    split at hs
    · cases hs
      refine h.goTo hreturned rfl rfl rfl rfl ?_
      split
      · exact phaseOk_nextCommand_zero hholds huntouched hn
      · exact ⟨hholds, huntouched, hn⟩
    · split at hs
      · cases hs
        exact hnext
      · next handler _ =>
        split at hs
        · obtain ⟨hreleases, hreleased⟩ := reserveCommand_spec handler run (s.runs r).releases
          rw [hholds.2, ← List.reverse_append] at hreleases
          split at hs
          · next herror =>
            cases hs
            rw [hreleased herror, List.nil_append] at hreleases
            refine h.goTo hreturned rfl rfl rfl rfl ⟨⟨?_, hreleases⟩, huntouched, hn⟩
            show (s.runs r).released ++ _ = []
            rw [hholds.1, hreleased herror, List.append_nil]
          · cases hs
            have hconfirmed : (s.runs r).confirmed (ctx.direct (req r)) (req r).commands.length = false :=
              untouched_confirmed huntouched hn
            have hlanded : (s.runs r).landed (ctx.direct (req r)) = [] := untouched_landed huntouched
            refine h.goTo hreturned rfl rfl rfl rfl ⟨?_, hconfirmed, huntouched.2.2.2.2, fun _ _ => hlanded⟩
            show (s.runs r).released ++ _ ++ releaseAll _ = _
            rw [hholds.1, List.nil_append]
            exact hreleases
        · cases hs
          exact hnext
  | _ =>
    rw [hp] at hs
    cases hs

theorem BatchInv.begin (h : BatchInv ctx req s) {error : Option WriteErrorInfo}
    (hs : s.begin ctx req r error = some s') : BatchInv ctx req s' := by
  unfold BatchState.begin at hs
  cases hp : (s.runs r).phase with
  | beginning =>
    obtain ⟨hholds, huntouched, hn⟩ := h.phase hp
    have hreturned := not_returned hp nofun
    rw [hp] at hs
    cases error with
    | none =>
      cases hs
      exact h.goTo hreturned rfl rfl rfl rfl (phaseOk_nextCommand_zero hholds huntouched hn)
    | some error =>
      cases hs
      exact h.goTo hreturned rfl rfl rfl rfl (phaseOk_fail hholds
        (untouched_confirmed huntouched hn) huntouched.2.2.2.2
        fun _ _ => untouched_landed huntouched)
  | _ =>
    rw [hp] at hs
    cases hs

theorem BatchInv.write (h : BatchInv ctx req s) {e : E} (hs : s.write ctx req r e = some s') :
    BatchInv ctx req s' := by
  unfold BatchState.write at hs
  cases hp : (s.runs r).phase with
  | running index =>
    obtain ⟨hholds, hsucceeded, hindex, hcommit, hfired, hpending⟩ := h.phase hp
    have hreturned := not_returned hp nofun
    have hwrites := (h.runs r).writes
    rw [hp] at hs
    simp only at hs
    split at hs
    · next hdirect =>
      cases hs
      refine h.goOn hreturned [e] ⟨?_, fun hc => ?_, .inl hfired, ?_⟩
      · rw [hwrites, BatchRun.landed, BatchRun.landed, if_pos hdirect, if_pos hdirect]
      · rw [hcommit] at hc
        cases hc
      · simp only [hp]
        exact ⟨hholds, hsucceeded, hindex, hcommit, hfired, fun hd => by rw [hdirect] at hd; cases hd⟩
    · next hdirect =>
      cases hs
      rw [Bool.not_eq_true] at hdirect
      refine h.setRun hreturned ⟨?_, fun hc => ?_, .inl hfired, ?_⟩
      · rw [hwrites, hdirect, landed_of_commit hcommit]
        refine Eq.symm (landed_of_commit ?_)
        exact hcommit
      · rw [hcommit] at hc
        cases hc
      · simp only [hp]
        refine ⟨hholds, hsucceeded, hindex, hcommit, hfired, fun hd => ?_⟩
        show (s.runs r).pending ++ [e] = (s.runs r).made ++ [e]
        exact congrArg (· ++ [e]) (hpending hd)
  | _ =>
    rw [hp] at hs
    cases hs

theorem BatchInv.hook (h : BatchInv ctx req s) {name : String} (hs : s.hook r name = some s') :
    BatchInv ctx req s' := by
  unfold BatchState.hook at hs
  cases hp : (s.runs r).phase with
  | running index =>
    have hphase := h.phase hp
    rw [hp] at hs
    cases hs
    refine h.goTo (fun answer => by rw [hp]; exact nofun) rfl rfl rfl rfl ?_
    simp only [hp]
    exact hphase
  | _ =>
    rw [hp] at hs
    cases hs

theorem succeeded_concat {index : ℕ} {results : List WriteResult} (data : JsonData)
    (h : Succeeded index results) : Succeeded (index + 1) (results ++ [.success data]) := by
  refine ⟨by rw [List.length_append, h.1]; rfl, fun result hresult => ?_⟩
  rcases List.mem_append.1 hresult with hresult | hresult
  · exact h.2 result hresult
  · rw [List.mem_singleton.1 hresult]
    rfl

theorem not_succeeded_failure {n : ℕ} {results : List WriteResult} {error : WriteErrorInfo} :
    ¬ Succeeded n (results ++ [.failure error]) := fun h =>
  nomatch h.2 (.failure error) (List.mem_append_right _ (.head _))

theorem BatchInv.settle (h : BatchInv ctx req s) {result : WriteResult} {rollback : Option WriteErrorInfo}
    (hs : s.settle ctx req r result rollback = some s') : BatchInv ctx req s' := by
  unfold BatchState.settle at hs
  cases hp : (s.runs r).phase with
  | running index =>
    obtain ⟨hholds, hsucceeded, hindex, hcommit, hfired, hpending⟩ := h.phase hp
    have hreturned := not_returned hp nofun
    have hwrites := (h.runs r).writes
    have hnone : ¬ (s.runs r).commit.isSome = true := by rw [hcommit]; exact nofun
    rw [hp] at hs
    cases result with
    | success data =>
      cases hs
      refine h.setRun hreturned ⟨hwrites, fun hc => absurd hc hnone, .inl hfired, ?_⟩
      show BatchRun.PhaseOk _ _ _ (ctx.nextCommand (req r) (index + 1))
      have hsucceeded := succeeded_concat data hsucceeded
      unfold DispatchContext.nextCommand
      split
      · next hnext => exact ⟨hholds, hsucceeded, hnext, hcommit, hfired, hpending⟩
      · next hnext =>
        obtain heq : index + 1 = (req r).commands.length := by omega
        rw [heq] at hsucceeded
        split
        · next hdirect =>
          refine ⟨hholds, ?_⟩
          rw [BatchRun.confirmed, if_pos hdirect]
          exact decide_eq_true hsucceeded
        · next hdirect =>
          rw [Bool.not_eq_true] at hdirect
          exact ⟨hholds, hsucceeded, hdirect, hcommit, hfired, hpending hdirect⟩
    | failure error =>
      -- the result is pushed before the batch fails
      generalize hresults : (s.runs r).results ++ [.failure error] = results at hs
      have hfail {next : AfterRelease} (hretry : ∀ result, next = .finish result true →
          ({ s.runs r with results } : BatchRun E).landed (ctx.direct (req r)) = []) :
          BatchInv ctx req (s.setRun r (DispatchContext.fail { s.runs r with results } next)) := by
        have hconfirmed : ({ s.runs r with results } : BatchRun E).confirmed (ctx.direct (req r))
            (req r).commands.length = false := by
          rw [BatchRun.confirmed]
          split
          · rw [← hresults]
            exact decide_eq_false not_succeeded_failure
          · show (s.runs r).commit.any _ = false
            rw [hcommit]
            rfl
        exact h.setRun hreturned ⟨hwrites, fun hc => absurd hc hnone, .inl hfired,
          phaseOk_fail hholds hconfirmed hfired hretry⟩
      simp only at hs
      split at hs
      · cases hs
        exact hfail fun _ hnext => by cases hnext
      · next hdirect =>
        rw [Bool.not_eq_true] at hdirect
        have hlanded : ({ s.runs r with results } : BatchRun E).landed (ctx.direct (req r)) = [] := by
          rw [hdirect]
          exact landed_of_commit hcommit
        cases rollback with
        | none | some error' =>
          cases hs
          exact hfail fun _ _ => hlanded
  | _ =>
    rw [hp] at hs
    cases hs

theorem BatchInv.throws (h : BatchInv ctx req s) {error : WriteErrorInfo}
    (hs : s.throws ctx req r error = some s') : BatchInv ctx req s' := by
  unfold BatchState.throws at hs
  cases hp : (s.runs r).phase with
  | running index =>
    obtain ⟨hholds, hsucceeded, hindex, hcommit, hfired, hpending⟩ := h.phase hp
    have hreturned := not_returned hp nofun
    have hconfirmed : (s.runs r).confirmed (ctx.direct (req r)) (req r).commands.length = false :=
      confirmed_of_length hcommit (by rw [hsucceeded.1]; exact hindex)
    rw [hp] at hs
    simp only at hs
    split at hs
    · cases hs
      exact h.goTo hreturned rfl rfl rfl rfl (phaseOk_fail hholds hconfirmed hfired fun _ hnext => by cases hnext)
    · next hdirect =>
      cases hs
      rw [Bool.not_eq_true] at hdirect
      refine h.goTo hreturned rfl rfl rfl rfl (phaseOk_fail hholds hconfirmed hfired fun _ _ => ?_)
      rw [hdirect]
      exact landed_of_commit hcommit
  | _ =>
    rw [hp] at hs
    cases hs

theorem BatchInv.commit (h : BatchInv ctx req s) {outcome : CommitOutcome}
    (hs : s.commit r outcome = some s') : BatchInv ctx req s' := by
  unfold BatchState.commit at hs
  cases hp : (s.runs r).phase with
  | committing =>
    obtain ⟨hholds, hsucceeded, hdirect, hcommit, hfired, hpending⟩ := h.phase hp
    have hreturned := not_returned hp nofun
    have hwrites : s.writesOf r = [] := by
      rw [(h.runs r).writes, hdirect, landed_of_commit hcommit]
    rw [hp] at hs
    cases outcome with
    | ok =>
      cases hs
      have hconfirmed : ({ s.runs r with phase := .flushing, pending := [], commit := some .ok } : BatchRun E).confirmed
          (ctx.direct (req r)) (req r).commands.length = true := by
        rw [BatchRun.confirmed, hdirect]
        rfl
      refine h.goOn hreturned _ ⟨?_, fun _ => ⟨hdirect, hsucceeded⟩, .inl hfired, hholds, hconfirmed⟩
      rw [hwrites, hdirect, List.nil_append]
      exact hpending
    | failed error applied =>
      cases hs
      have hconfirmed : ({ s.runs r with commit := some (.failed error applied) } : BatchRun E).confirmed
          (ctx.direct (req r)) (req r).commands.length = false := by
        rw [BatchRun.confirmed, hdirect]
        rfl
      refine h.goOn hreturned _ ⟨?_, fun _ => ⟨hdirect, hsucceeded⟩, .inl hfired,
        phaseOk_fail hholds hconfirmed hfired fun _ hnext => by cases hnext⟩
      rw [hwrites, hdirect, List.nil_append]
      show (if applied then (s.runs r).pending else []) = if applied then (s.runs r).made else []
      rw [hpending]
  | _ =>
    rw [hp] at hs
    cases hs

theorem BatchInv.release (h : BatchInv ctx req s) (hs : s.release r = some s') : BatchInv ctx req s' := by
  unfold BatchState.release at hs
  cases hp : (s.runs r).phase with
  | releasing todo next =>
    obtain ⟨hreleased, hconfirmed, hfired, hretry⟩ := h.phase hp
    have hreturned := not_returned hp nofun
    rw [hp] at hs
    cases todo with
    | nil =>
      have hsettled : (s.runs r).Settled (ctx.direct (req r)) (req r).commands.length := by
        rw [BatchRun.Settled, hconfirmed, ← hreleased, List.append_nil]
        rfl
      cases next with
      | finish result retryable =>
        cases hs
        refine h.goTo hreturned rfl rfl rfl rfl ⟨hsettled, ?_⟩
        rintro rfl
        exact hretry result rfl
      | rethrow =>
        cases hs
        exact h.goTo hreturned rfl rfl rfl rfl hsettled
    | cons name todo =>
      cases hs
      refine h.goTo hreturned rfl rfl rfl rfl ⟨?_, hconfirmed, hfired, hretry⟩
      show (s.runs r).released ++ [name] ++ todo = (s.runs r).acquired.reverse
      rw [List.append_assoc]
      exact hreleased
  | _ =>
    rw [hp] at hs
    cases hs

theorem BatchInv.flush (h : BatchInv ctx req s) (hs : s.flush r = some s') : BatchInv ctx req s' := by
  unfold BatchState.flush at hs
  cases hp : (s.runs r).phase with
  | flushing =>
    obtain ⟨hholds, hconfirmed⟩ := h.phase hp
    have hreturned := not_returned hp (by simp)
    rw [hp] at hs
    cases hs
    have hsettled : (s.runs r).Settled (ctx.direct (req r)) (req r).commands.length := by
      rw [BatchRun.Settled, hconfirmed, if_pos rfl]
      exact hholds.1
    exact h.setRun hreturned ⟨(h.runs r).writes, (h.runs r).commit, .inr hconfirmed, hsettled, by simp⟩
  | _ =>
    rw [hp] at hs
    cases hs

theorem BatchInv.finish (h : BatchInv ctx req s) (hs : s.finish ctx req r = some s') : BatchInv ctx req s' := by
  unfold BatchState.finish at hs
  cases hp : (s.runs r).phase with
  | finishing result retryable =>
    obtain ⟨hsettled, hretry⟩ := h.phase hp
    have hreturned := not_returned hp nofun
    rw [hp] at hs
    simp only at hs
    generalize hmasked : JsonTree.ofBatch (ctx.maskBatchResultForClient (req r).commands result) = masked at hs
    have hgo : BatchInv ctx req (s.setRun r { s.runs r with phase := .returned masked }) :=
      h.goTo hreturned rfl rfl rfl rfl hsettled
    split at hs
    · cases hs
      exact hgo
    · split at hs
      · next hretryable =>
        obtain ⟨g, hg, rfl⟩ := Option.map_eq_some_iff.1 hs
        refine hgo.redis (a := .release r) trivial hg (fun _ _ ha => nomatch ha) (fun r' ha => ?_)
        cases ha
        refine ⟨⟨masked, by rw [setRun_self]⟩, ?_⟩
        rw [setRun_writesOf, (h.runs r).writes]
        exact hretry hretryable
      · obtain ⟨g, hg, rfl⟩ := Option.map_eq_some_iff.1 hs
        refine hgo.redis (a := .store r (some masked)) trivial hg (fun r' answer ha => ?_) (fun _ ha => nomatch ha)
        cases ha
        exact ⟨_, by rw [← hmasked]⟩
  | _ =>
    rw [hp] at hs
    cases hs

/-- A call that ends with its process keeps what it has. -/
theorem BatchInv.die (h : BatchInv ctx req s) (hreturned : ∀ answer, (s.runs r).phase ≠ .returned answer) :
    BatchInv ctx req (s.setRun r { s.runs r with phase := .dead, pending := [] }) :=
  h.setRun hreturned ⟨(h.runs r).writes, (h.runs r).commit, (h.runs r).fired, by
    have horder := phaseOk_order (h.runs r).phase
    exact horder⟩

theorem BatchInv.crash (h : BatchInv ctx req s) {applied : Bool} (hs : s.crash r applied = some s') :
    BatchInv ctx req s' := by
  have hredis {s : BatchState E} (h : BatchInv ctx req s) {g : GuardedKey} (hg : s.guard.step (.crash r) = some g) :
      BatchInv ctx req { s with guard := g } :=
    h.redis (a := .crash r) trivial hg (fun _ _ ha => nomatch ha) (fun _ ha => nomatch ha)
  unfold BatchState.crash at hs
  cases hp : (s.runs r).phase with
  | returned | thrown | dead =>
    rw [hp] at hs
    cases hs
  | committing =>
    obtain ⟨hholds, hsucceeded, hdirect, hcommit, hfired, hpending⟩ := h.phase hp
    have hreturned := not_returned hp nofun
    rw [hp] at hs
    obtain ⟨g, hg, rfl⟩ := Option.map_eq_some_iff.1 hs
    cases applied with
    | false => exact hredis (h.die hreturned) hg
    | true =>
      have hwrites : s.writesOf r = [] := by rw [(h.runs r).writes, hdirect, landed_of_commit hcommit]
      have hgo : BatchInv ctx req ((s.setRun r
          { s.runs r with phase := .dead, pending := [], commit := some .ok }).land r (s.runs r).pending) := by
        refine h.goOn hreturned _ ⟨?_, fun _ => ⟨hdirect, hsucceeded⟩, .inl hfired, ?_⟩
        · rw [hwrites, hdirect, List.nil_append]
          exact hpending
        · exact ⟨hholds.1 ▸ List.nil_prefix, fun _ => hholds.1⟩
      exact hredis hgo hg
  | idle | checking | reserving | beginning | running | releasing | flushing | finishing =>
    have hreturned := not_returned hp nofun
    rw [hp] at hs
    obtain ⟨g, hg, rfl⟩ := Option.map_eq_some_iff.1 hs
    exact hredis (h.die hreturned) hg

/-- Every step keeps the invariant. -/
theorem BatchInv.step (h : BatchInv ctx req s) {a : BatchAct E} (hids : s.FreshIds a)
    (hs : s.step ctx req a = some s') : BatchInv ctx req s' := by
  cases a with
  | dispatch r => exact h.dispatch hs
  | check r a => exact h.check hids hs
  | expire =>
    obtain ⟨g, hg, rfl⟩ := Option.map_eq_some_iff.1 hs
    exact h.redis (a := .expire) trivial hg (fun _ _ ha => nomatch ha) (fun _ ha => nomatch ha)
  | reserve r run => exact h.reserve hs
  | begin r error => exact h.begin hs
  | write r e => exact h.write hs
  | hook r name => exact h.hook hs
  | settle r result rollback => exact h.settle hs
  | throws r error => exact h.throws hs
  | commit r outcome => exact h.commit hs
  | release r => exact h.release hs
  | flush r => exact h.flush hs
  | finish r => exact h.finish hs
  | crash r applied => exact h.crash hs

theorem batchInv_initial : BatchInv ctx req (initial : BatchState E) := by
  refine ⟨GuardedKey.guardInv_initial, (fun _ _ _ hmem => nomatch hmem), fun r => ⟨?_, (fun hc => nomatch hc), .inl rfl, ?_⟩,
    (fun _ _ hmem => nomatch hmem)⟩
  · have hlanded : (initial : BatchState E).runs r = .empty := rfl
    rw [hlanded, BatchRun.landed, BatchRun.empty, ite_self, ite_self]
    rfl
  · exact ⟨⟨rfl, rfl⟩, ⟨rfl, rfl, rfl, rfl, rfl⟩, rfl⟩

/-! ## Who starts -/

/-- A call that the check lets start found no record under the request id. -/
theorem BatchInv.free_of_check (h : BatchInv ctx req s) {a : GuardAct} (hs : s.check ctx req r a = some s')
    (hstart : (s'.runs r).phase.executing = true) : recordAfter s.guard.history = .free := by
  unfold BatchState.check at hs
  cases hp : (s.runs r).phase with
  | checking =>
    rw [hp] at hs
    simp only at hs
    split at hs
    · next hcheck =>
      obtain ⟨g, hg, rfl⟩ := Option.map_eq_some_iff.1 hs
      have hproceed : (ctx.proceed (req r) (s.runs r) (g.requests r)).phase.executing = true := by
        simpa only [setRun_self] using hstart
      obtain hnone | ⟨text, hcached, hvalue, hpending⟩ | hneither := GuardedKey.answer_of_check hcheck hg
      · exact h.guard.free_of_value hnone
      · -- what is stored is the text of a result, and read back as one
        obtain ⟨r', token, answer, hmem, rfl⟩ := h.guard.stored_of_value hvalue hpending
        obtain ⟨result, rfl⟩ := h.stored r' token answer hmem
        have hread := parseJsonSafe_storedText (JsonTree.ofBatch_valid result) .null
        rw [hcached] at hproceed
        simp only [DispatchContext.proceed, hread, JsonTree.ofBatch_truthy, if_true] at hproceed
        cases hproceed
      · cases hr : g.requests r with
        | acquired token => exact absurd hr (hneither token "").1
        | cached text => exact absurd hr (hneither "" text).2
        | failed =>
          rw [hr] at hproceed
          cases hproceed
        | idle | tryAcquire | poll | reclaim | finalGet | lastResort =>
          rw [hr] at hproceed
          simp only [DispatchContext.proceed, hp] at hproceed
          cases hproceed
    · cases hs
  | _ =>
    rw [hp] at hs
    cases hs

/-- A step that moves one call lets no other start, and none that it leaves outside or found inside. -/
theorem not_start {r' : ℕ} {run : BatchRun E} (hruns : s'.runs = (s.setRun r run).runs)
    (hbefore : (s.runs r').phase.executing = false) (hafter : (s'.runs r').phase.executing = true) :
    r' = r ∧ run.phase.executing = true := by
  rw [hruns] at hafter
  rcases eq_or_ne r' r with rfl | hne
  · rw [setRun_self] at hafter
    exact ⟨rfl, hafter⟩
  · rw [setRun_of_ne hne, hbefore] at hafter
    cases hafter

/-- A call that starts does so in the last step of its check, or has no claim to ask for. -/
theorem start_of_step {a : BatchAct E} {r' : ℕ} (hs : s.step ctx req a = some s')
    (hbefore : (s.runs r').phase.executing = false) (hafter : (s'.runs r').phase.executing = true) :
    (∃ a', s.check ctx req r' a' = some s') ∨ ctx.keyed (req r') = false := by
  have houtside {r : ℕ} {run : BatchRun E} (hruns : s'.runs = (s.setRun r run).runs)
      (hout : run.phase.executing = false) : False := by
    obtain ⟨-, hin⟩ := not_start hruns hbefore hafter
    rw [hout] at hin
    cases hin
  have hinside {r : ℕ} {run : BatchRun E} (hruns : s'.runs = (s.setRun r run).runs)
      (hin : (s.runs r).phase.executing = true) : False := by
    obtain ⟨rfl, -⟩ := not_start hruns hbefore hafter
    rw [hbefore] at hin
    cases hin
  cases a with
  | dispatch r =>
    simp only [step, dispatch] at hs
    cases hp : (s.runs r).phase with
    | idle =>
      rw [hp] at hs
      simp only at hs
      split at hs
      · cases hs
        exact (houtside rfl rfl).elim
      · split at hs
        · obtain ⟨g, hg, rfl⟩ := Option.map_eq_some_iff.1 hs
          exact (houtside rfl rfl).elim
        · next hkeyed =>
          cases hs
          obtain ⟨rfl, -⟩ := not_start rfl hbefore hafter
          exact .inr (by simpa using hkeyed)
    | _ =>
      rw [hp] at hs
      cases hs
  | check r a =>
    have hcheck : s.check ctx req r a = some s' := hs
    simp only [step, check] at hs
    cases hp : (s.runs r).phase with
    | checking =>
      rw [hp] at hs
      simp only at hs
      split at hs
      · obtain ⟨g, hg, rfl⟩ := Option.map_eq_some_iff.1 hs
        obtain ⟨rfl, -⟩ := not_start rfl hbefore hafter
        exact .inl ⟨a, hcheck⟩
      · cases hs
    | _ =>
      rw [hp] at hs
      cases hs
  | expire =>
    obtain ⟨g, hg, rfl⟩ := Option.map_eq_some_iff.1 hs
    rw [hbefore] at hafter
    cases hafter
  | reserve r run =>
    simp only [step, reserve] at hs
    cases hp : (s.runs r).phase with
    | reserving index =>
      have hin : (s.runs r).phase.executing = true := by rw [hp]; rfl
      rw [hp] at hs
      simp only at hs
      split at hs
      · cases hs
        exact (hinside rfl hin).elim
      · split at hs
        · cases hs
          exact (hinside rfl hin).elim
        · split at hs
          · split at hs
            · cases hs
              exact (hinside rfl hin).elim
            · cases hs
              exact (hinside rfl hin).elim
          · cases hs
            exact (hinside rfl hin).elim
    | _ =>
      rw [hp] at hs
      cases hs
  | begin r error =>
    simp only [step, begin] at hs
    cases hp : (s.runs r).phase with
    | beginning =>
      have hin : (s.runs r).phase.executing = true := by rw [hp]; rfl
      rw [hp] at hs
      cases error with
      | none | some error =>
        cases hs
        exact (hinside rfl hin).elim
    | _ =>
      rw [hp] at hs
      cases hs
  | write r e =>
    simp only [step, write] at hs
    cases hp : (s.runs r).phase with
    | running index =>
      have hin : (s.runs r).phase.executing = true := by rw [hp]; rfl
      rw [hp] at hs
      simp only at hs
      split at hs
      · cases hs
        exact (hinside rfl hin).elim
      · cases hs
        exact (hinside rfl hin).elim
    | _ =>
      rw [hp] at hs
      cases hs
  | hook r name =>
    simp only [step, hook] at hs
    cases hp : (s.runs r).phase with
    | running index =>
      have hin : (s.runs r).phase.executing = true := by rw [hp]; rfl
      rw [hp] at hs
      cases hs
      exact (hinside rfl hin).elim
    | _ =>
      rw [hp] at hs
      cases hs
  | settle r result rollback =>
    simp only [step, settle] at hs
    cases hp : (s.runs r).phase with
    | running index =>
      have hin : (s.runs r).phase.executing = true := by rw [hp]; rfl
      rw [hp] at hs
      cases result with
      | success data =>
        cases hs
        exact (hinside rfl hin).elim
      | failure error =>
        simp only at hs
        split at hs
        · cases hs
          exact (hinside rfl hin).elim
        · cases rollback with
          | none | some error' =>
            cases hs
            exact (hinside rfl hin).elim
    | _ =>
      rw [hp] at hs
      cases hs
  | throws r error =>
    simp only [step, throws] at hs
    cases hp : (s.runs r).phase with
    | running index =>
      have hin : (s.runs r).phase.executing = true := by rw [hp]; rfl
      rw [hp] at hs
      simp only at hs
      split at hs
      · cases hs
        exact (hinside rfl hin).elim
      · cases hs
        exact (hinside rfl hin).elim
    | _ =>
      rw [hp] at hs
      cases hs
  | commit r outcome =>
    simp only [step, commit] at hs
    cases hp : (s.runs r).phase with
    | committing =>
      have hin : (s.runs r).phase.executing = true := by rw [hp]; rfl
      rw [hp] at hs
      cases outcome with
      | ok | failed error applied =>
        cases hs
        exact (hinside rfl hin).elim
    | _ =>
      rw [hp] at hs
      cases hs
  | release r =>
    simp only [step, release] at hs
    cases hp : (s.runs r).phase with
    | releasing todo next =>
      rw [hp] at hs
      cases todo with
      | nil => cases next with
        | finish | rethrow =>
          cases hs
          exact (houtside rfl rfl).elim
      | cons name todo =>
        cases hs
        exact (houtside rfl rfl).elim
    | _ =>
      rw [hp] at hs
      cases hs
  | flush r =>
    simp only [step, flush] at hs
    cases hp : (s.runs r).phase with
    | flushing =>
      rw [hp] at hs
      cases hs
      exact (houtside rfl rfl).elim
    | _ =>
      rw [hp] at hs
      cases hs
  | finish r =>
    simp only [step, finish] at hs
    cases hp : (s.runs r).phase with
    | finishing result retryable =>
      rw [hp] at hs
      simp only at hs
      split at hs
      · cases hs
        exact (houtside rfl rfl).elim
      · split at hs
        · obtain ⟨g, hg, rfl⟩ := Option.map_eq_some_iff.1 hs
          exact (houtside rfl rfl).elim
        · obtain ⟨g, hg, rfl⟩ := Option.map_eq_some_iff.1 hs
          exact (houtside rfl rfl).elim
    | _ =>
      rw [hp] at hs
      cases hs
  | crash r applied =>
    simp only [step, crash] at hs
    cases hp : (s.runs r).phase with
    | returned | thrown | dead =>
      rw [hp] at hs
      cases hs
    | committing =>
      rw [hp] at hs
      obtain ⟨g, hg, rfl⟩ := Option.map_eq_some_iff.1 hs
      cases applied with
      | true | false => exact (houtside rfl rfl).elim
    | _ =>
      rw [hp] at hs
      obtain ⟨g, hg, rfl⟩ := Option.map_eq_some_iff.1 hs
      exact (houtside rfl rfl).elim

theorem BatchInv.safe (h : BatchInv ctx req s) : BatchSafe ctx req s := by
  have horder r := phaseOk_order (h.runs r).phase
  refine ⟨fun r hdirect => ?_, fun r hconfirmed => ?_, fun r => (horder r).1, fun r => (horder r).2,
    fun r hended hconfirmed => ?_, fun r hfired => (h.runs r).fired.resolve_left hfired,
    fun r token hmem => (h.released r token hmem).2, fun a s' hs r hkeyed hbefore hafter r' hrecord => ?_⟩
  · rw [(h.runs r).writes, hdirect, BatchRun.landed, if_neg Bool.false_ne_true, BatchRun.applied]
    have hcommit := (h.runs r).commit
    cases hc : (s.runs r).commit with
    | none => exact .inl rfl
    | some outcome =>
      rw [hc] at hcommit
      split
      · exact .inr ⟨rfl, (hcommit rfl).2⟩
      · exact .inl rfl
  · rw [(h.runs r).writes, BatchRun.landed]
    rw [BatchRun.confirmed] at hconfirmed
    split
    · rfl
    · next hdirect =>
      rw [if_neg hdirect] at hconfirmed
      cases hc : (s.runs r).commit with
      | none =>
        rw [hc] at hconfirmed
        cases hconfirmed
      | some outcome =>
        rw [hc] at hconfirmed
        cases outcome with
        | ok => rw [BatchRun.applied, hc]; rfl
        | failed => cases hconfirmed
  · have hphase := (h.runs r).phase
    cases hp : (s.runs r).phase with
    | returned | thrown =>
      rw [hp] at hphase
      have hsettled : (s.runs r).Settled (ctx.direct (req r)) (req r).commands.length := hphase
      rw [BatchRun.Settled, hconfirmed] at hsettled
      exact hsettled
    | _ =>
      rw [hp] at hended
      cases hended
  · obtain ⟨a', hcheck⟩ | hunkeyed := start_of_step hs hbefore hafter
    · have hfree := h.free_of_check hcheck hafter
      obtain ⟨token, hr⟩ | ⟨answer, hr⟩ := hrecord
      · rw [hfree] at hr
        cases hr
      · rw [hfree] at hr
        cases hr
    · rw [hkeyed] at hunkeyed
      cases hunkeyed

/-- In every run of the dispatcher, with any commands, reservations, failures and retries, a batch in a transaction
of its own is committed as a whole or not at all, what was reserved for it is given back, once and last first, if and
only if it ends without an answered COMMIT, and no retry executes while the request id has a record. -/
theorem batch_of_run (hr : Run (step ctx req) FreshIds initial s) : BatchSafe ctx req s :=
  (hr.invariant batchInv_initial fun _ _ _ hi ha hs => hi.step ha hs).safe

end

/-! ## Runs -/

instance (s : BatchState E) (a : BatchAct E) : Decidable (s.FreshIds a) := by
  unfold FreshIds
  split <;> infer_instance

/-- A handler that reserves before the transaction. -/
def reservingContext : DispatchContext := ⟨fun _ => some ⟨false, true, false⟩, true, true, fun _ result => result⟩

/-- A handler that runs without a transaction of its own. -/
def perCommandContext : DispatchContext := ⟨fun _ => some ⟨true, false, false⟩, true, true, fun _ result => result⟩

/-- Every call carries the request id and one command. -/
def oneCommand : ℕ → BatchRequest := fun _ => ⟨["invoice:write:send"], true, false⟩

def unavailable : WriteErrorInfo := ⟨"unavailable", 503, "errors.unavailable", "connection lost", none⟩

def sentResult : WriteResult := .success ⟨.object [], by simp [JsonTree.Valid, JsonTree.ValidFields]⟩

/-- The cap of the tenant and the one of the user. -/
def bothCaps : PreTransactionRun :=
  ⟨none, chainReservations (some (.own (.taken "tenant"))) (.own (.taken "user")), .success none⟩

/-- A call up to the end of its command. -/
def upToCommand (r : ℕ) (id : String) (result : WriteResult) : List (BatchAct ℕ) :=
  [.dispatch r, .check r (.setNx r id), .reserve r bothCaps, .reserve r bothCaps, .begin r none, .write r r,
    .settle r result none]

/-- A call fails and releases its claim, the next one commits, and the one after it is answered from the record. -/
def retriedBatch : List (BatchAct ℕ) :=
  upToCommand 0 "a" (.failure unavailable) ++ [.release 0, .release 0, .release 0, .finish 0] ++
    upToCommand 1 "b" sentResult ++ [.commit 1 .ok, .flush 1, .finish 1] ++
    [.dispatch 2, .check 2 (.setNx 2 "c"), .check 2 (.get 2)]

theorem batch_of_run_retried : ∃ s : BatchState ℕ, (s.writesOf 0 = [] ∧ (s.runs 0).released = ["user", "tenant"]) ∧
    (s.writesOf 1 = [1] ∧ (s.runs 1).released = []) ∧ (s.writesOf 2 = [] ∧ (s.runs 2).phase.ended = true) ∧
      BatchSafe reservingContext oneCommand s := by
  obtain ⟨s, hr, hs⟩ := exists_run_of_execOk (step reservingContext oneCommand) (fun s a => decide (s.FreshIds a))
    initial retriedBatch
    (fun s => decide (((s.writesOf 0 = [] ∧ (s.runs 0).released = ["user", "tenant"]) ∧
      (s.writesOf 1 = [1] ∧ (s.runs 1).released = []) ∧ s.writesOf 2 = [] ∧ (s.runs 2).phase.ended = true)))
    (fun _ _ => of_decide_eq_true) (by decide +kernel) (by decide +kernel)
  obtain ⟨h₀, h₁, h₂⟩ := of_decide_eq_true hs
  exact ⟨s, h₀, h₁, h₂, batch_of_run hr⟩

/-- The COMMIT is applied, and its answer is lost. -/
def lostCommit : List (BatchAct ℕ) :=
  upToCommand 0 "a" sentResult ++ [.commit 0 (.failed unavailable true), .release 0, .release 0, .release 0, .finish 0]

/-- A handler without a transaction writes, and fails. -/
def failedHalfway : List (BatchAct ℕ) :=
  [.dispatch 0, .check 0 (.setNx 0 "a"), .reserve 0 bothCaps, .reserve 0 bothCaps, .write 0 0,
    .settle 0 (.failure unavailable) none]

/-- What was reserved is given back if and only if the transaction was not committed. -/
def ReleasedIffNotCommitted (s : BatchState E) : Prop :=
  ∀ r, (s.runs r).phase.ended = true →
    (s.runs r).released = if (s.runs r).applied then [] else (s.runs r).acquired.reverse

/-- Every batch is committed as a whole or not at all. -/
def WholeOrNothing (req : ℕ → BatchRequest) (s : BatchState E) : Prop :=
  ∀ r, s.writesOf r = [] ∨
    s.writesOf r = (s.runs r).made ∧ Succeeded (req r).commands.length (s.runs r).results

/-- The releases run where the COMMIT may have been applied, and a batch without a transaction keeps what its command
wrote before it failed. -/
theorem not_whole_or_released :
    (¬ ∀ s : BatchState ℕ, Run (step reservingContext oneCommand) FreshIds initial s → ReleasedIffNotCommitted s) ∧
      ¬ ∀ s : BatchState ℕ, Run (step perCommandContext oneCommand) FreshIds initial s → WholeOrNothing oneCommand s := by
  refine ⟨fun hall => ?_, fun hall => ?_⟩
  · obtain ⟨s, hr, hs⟩ := exists_run_of_execOk (step reservingContext oneCommand) (fun s a => decide (s.FreshIds a))
      initial lostCommit
      (fun s => decide ((s.runs 0).phase.ended = true ∧
        ¬ (s.runs 0).released = if (s.runs 0).applied then [] else (s.runs 0).acquired.reverse))
      (fun _ _ => of_decide_eq_true) (by decide +kernel) (by decide +kernel)
    obtain ⟨hended, hreleased⟩ := of_decide_eq_true hs
    exact hreleased (hall s hr 0 hended)
  · obtain ⟨s, hr, hs⟩ := exists_run_of_execOk (step perCommandContext oneCommand) (fun s a => decide (s.FreshIds a))
      initial failedHalfway
      (fun s => decide (¬ (s.writesOf 0 = [] ∨
        s.writesOf 0 = (s.runs 0).made ∧ Succeeded (oneCommand 0).commands.length (s.runs 0).results)))
      (fun _ _ => of_decide_eq_true) (by decide +kernel) (by decide +kernel)
    exact of_decide_eq_true hs (hall s hr 0)

end BatchState

end Kumiko
