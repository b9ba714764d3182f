import Kumiko.Library.Run
import Mathlib.Algebra.BigOperators.Group.List.Basic
import Mathlib.Algebra.Order.Ring.Int

/-!
# The upcast pass

A read walks each stored event through the registered steps to the current version. `upcastStoredEvents` starts
all walks at once and waits for all of them, and the first that throws makes the pass throw while the others go
on. Under the policy `quarantine` a step that throws ends its walk with a dead letter.
-/

namespace Kumiko

open Transition

/-- An event as a read hands it over, with the payload type `P` and the metadata type `M`.
Reference: `toStoredEvent` (`event-store/row-to-stored-event.ts`). -/
structure StoredEvent (P M : Type) where
  id : String
  aggregateId : String
  aggregateType : String
  tenantId : String
  version : ℤ
  type : String
  eventVersion : ℤ
  payload : P
  metadata : M
  createdAt : ℕ
  createdBy : String

/-- What a step throws: an `Error`, or another value given by its `String(..)`. -/
inductive Thrown
  | error (message : String)
  | other (text : String)

/-- `err instanceof Error ? err.message : String(err)`. -/
def Thrown.message : Thrown → String
  | .error message => message
  | .other text => text

/-- The database and the tenant a step may look into. Reference: `EventUpcastCtx`
(`types/src/handlers.ts`). -/
structure EventUpcastCtx (D : Type) where
  db : D
  tenantId : String

/-- A step of a chain: the payload one version up, or what it throws. Reference: `EventUpcastFn`. -/
abbrev EventUpcastFn (P D : Type) := P → EventUpcastCtx D → Except Thrown P

/-- The current version of an event type and its steps by the version they start from. -/
structure UpcasterInfo (P D : Type) where
  currentVersion : ℤ
  chain : List (ℤ × EventUpcastFn P D)

/-- The registered chains by event type. Reference: `EventUpcasters`. -/
abbrev EventUpcasters (P D : Type) := List (String × UpcasterInfo P D)

/-- What the pass does with an event whose step throws. -/
inductive UpcasterErrorPolicy
  | throw
  | quarantine

/-- Why a pass throws. -/
inductive UpcastError
  /-- The chain has no step from the version. -/
  | missingUpcaster (type : String) (version : ℤ)
  /-- A step threw under the policy `throw`. -/
  | thrown (err : Thrown)
  /-- The dead letter could not be written. -/
  | deadLetterFailed (err : Thrown)

/-- The text of the error. -/
def UpcastError.message : UpcastError → String
  | .missingUpcaster type v =>
    "Missing upcaster for event \"" ++ type ++ "\" v" ++ toString v ++ " → v" ++ toString (v + 1) ++ ". " ++
      "The registry should have caught this at boot — check the eventUpcasterMap wiring."
  | .thrown err | .deadLetterFailed err => err.message

/-- A row of `kumiko_upcaster_dead_letters`, without its serial id and its time. Reference:
`upcasterDeadLetterTable` (`event-store/upcaster-dead-letter.ts`). -/
structure UpcasterDeadLetter (P : Type) where
  eventId : String
  tenantId : String
  aggregateId : String
  aggregateType : String
  eventType : String
  fromVersion : ℤ
  targetVersion : ℤ
  errorMessage : String
  originalPayload : P

section
variable {P M D : Type}

/-- The row of an event that is quarantined. Reference: `recordUpcasterDeadLetter`. -/
def deadLetterRow (event : StoredEvent P M) (fromVersion targetVersion : ℤ) (err : Thrown) :
    UpcasterDeadLetter P :=
  { eventId := event.id, tenantId := event.tenantId, aggregateId := event.aggregateId,
    aggregateType := event.aggregateType, eventType := event.type, fromVersion, targetVersion,
    errorMessage := err.message, originalPayload := event.payload }

/-- How far the walk of one event is. -/
inductive Upcasting (P M D : Type)
  /-- At the head of the loop, with the payload at the version `v`. -/
  | walking (info : UpcasterInfo P D) (payload : P) (v : ℤ)
  /-- A step threw, and the dead letter is being written. -/
  | recording (fromVersion targetVersion : ℤ) (err : Thrown)
  /-- The walk returned an event, or `null`. -/
  | fulfilled (result : Option (StoredEvent P M))
  /-- The walk threw. -/
  | rejected (err : UpcastError)

/-- What the walk returned. -/
def Upcasting.result : Upcasting P M D → Option (Option (StoredEvent P M))
  | .fulfilled result => some result
  | _ => none

/-- What the walk threw. -/
def Upcasting.thrownError : Upcasting P M D → Option UpcastError
  | .rejected err => some err
  | _ => none

/-- The walk of an event up to its loop. Reference: `upcastStoredEventWithPolicy`. -/
def upcastStart (upcasters : EventUpcasters P D) (event : StoredEvent P M) : Upcasting P M D :=
  match upcasters.lookup event.type with
  | none => .fulfilled (some event)
  | some info =>
    if info.currentVersion ≤ event.eventVersion then .fulfilled (some event)
    else .walking info event.payload event.eventVersion

/-- One turn of the loop, or the return after it. Reference: the loop of
`upcastStoredEventWithPolicy`. -/
def upcastTurn (policy : UpcasterErrorPolicy) (ctx : EventUpcastCtx D) (event : StoredEvent P M)
    (info : UpcasterInfo P D) (payload : P) (v : ℤ) : Upcasting P M D :=
  if v < info.currentVersion then
    match info.chain.lookup v with
    -- a gap throws under either policy
    | none => .rejected (.missingUpcaster event.type v)
    | some transform =>
      match transform payload ctx with
      | .ok payload' => .walking info payload' (v + 1)
      | .error err =>
        match policy with
        | .quarantine => .recording event.eventVersion info.currentVersion err
        | .throw => .rejected (.thrown err)
  else .fulfilled (some { event with payload := payload, eventVersion := v })

/-- A pass: the walks of its events in input order, the database with the ones before it, the dead
letters written so far, each with the position of its event, and the first error thrown. -/
structure UpcastPass (P M D : Type) where
  walks : List (StoredEvent P M × Upcasting P M D)
  db : D
  pastDbs : List D
  recorded : List (ℕ × UpcasterDeadLetter P)
  rejection : Option UpcastError

/-- What happens during a pass. -/
inductive UpcastAct (D : Type)
  /-- The walk at the position takes its next turn. -/
  | turn (i : ℕ)
  /-- The dead letter of the event at the position is written. -/
  | insertOne (i : ℕ)
  /-- It cannot be written. -/
  | insertFails (i : ℕ) (err : Thrown)
  /-- Somebody changes the database. -/
  | changeDb (db : D)

namespace UpcastPass

/-- The pass as `Promise.all` starts it. Without any upcaster the events are returned as they are.
Reference: `upcastStoredEvents`. -/
def start (upcasters : EventUpcasters P D) (events : List (StoredEvent P M)) (db : D) : UpcastPass P M D :=
  { walks := events.map fun event =>
      (event, if upcasters.isEmpty then .fulfilled (some event) else upcastStart upcasters event)
    db, pastDbs := [], recorded := [], rejection := none }

/-- The walk at the position is now at `walk`. A walk that throws makes the pass throw, unless
another one was before it. -/
def setWalk (pass : UpcastPass P M D) (i : ℕ) (event : StoredEvent P M) (walk : Upcasting P M D) :
    UpcastPass P M D :=
  { pass with
    walks := pass.walks.set i (event, walk)
    rejection := pass.rejection.or walk.thrownError }

/-- One step of the pass. -/
def step (policy : UpcasterErrorPolicy) (tenantId : String) (pass : UpcastPass P M D) :
    UpcastAct D → Option (UpcastPass P M D)
  | .turn i =>
    match pass.walks[i]? with
    | some (event, .walking info payload v) =>
      some (pass.setWalk i event (upcastTurn policy ⟨pass.db, tenantId⟩ event info payload v))
    | _ => none
  | .insertOne i =>
    match pass.walks[i]? with
    | some (event, .recording fromVersion targetVersion err) =>
      some { pass.setWalk i event (.fulfilled none) with
        recorded := pass.recorded ++ [(i, deadLetterRow event fromVersion targetVersion err)] }
    | _ => none
  | .insertFails i insertErr =>
    match pass.walks[i]? with
    | some (event, .recording _ _ _) => some (pass.setWalk i event (.rejected (.deadLetterFailed insertErr)))
    | _ => none
  | .changeDb db => some { pass with db := db, pastDbs := pass.db :: pass.pastDbs }

/-- The database at every moment of the pass so far. -/
def databases (pass : UpcastPass P M D) : List D := pass.db :: pass.pastDbs

/-- The dead letters written for the event at the position. -/
def lettersOf (pass : UpcastPass P M D) (i : ℕ) : List (UpcasterDeadLetter P) :=
  (pass.recorded.filter fun letter => letter.1 = i).map Prod.snd

/-- What the walks returned, once all of them have. -/
def results (pass : UpcastPass P M D) : Option (List (Option (StoredEvent P M))) :=
  pass.walks.mapM fun walk => walk.2.result

/-- What the pass throws, or the events it returns: those that are not `null`. Reference:
`upcastStoredEvents`. -/
def outcome (pass : UpcastPass P M D) : Option (Except UpcastError (List (StoredEvent P M))) :=
  match pass.rejection with
  | some err => some (.error err)
  | none => pass.results.map fun results => .ok (results.filterMap id)

end UpcastPass

/-- The steps from the version `v` upwards, one for each of the databases they find, applied to the
payload in turn. -/
def composeSteps (info : UpcasterInfo P D) (tenantId : String) : List D → P → ℤ → Option P
  | [], payload, _ => some payload
  | db :: dbs, payload, v =>
    (info.chain.lookup v).bind fun transform =>
      (transform payload ⟨db, tenantId⟩).toOption.bind fun payload' =>
        composeSteps info tenantId dbs payload' (v + 1)

/-- The steps from the event's stored version up to `v` turn its payload into `payload`, each at one of
the databases. -/
def WalkedTo (info : UpcasterInfo P D) (tenantId : String) (dbs : List D) (event : StoredEvent P M)
    (payload : P) (v : ℤ) : Prop :=
  ∃ found : List D, (∀ db ∈ found, db ∈ dbs) ∧ v = event.eventVersion + found.length ∧
    composeSteps info tenantId found event.payload event.eventVersion = some payload

/-- The event as a consumer shall see it: at its stored version when its type has no chain or the
version is not below the current one, and otherwise at the current version with the payload that the
chain composes. -/
def Upcasted (upcasters : EventUpcasters P D) (tenantId : String) (dbs : List D)
    (event event' : StoredEvent P M) : Prop :=
  match upcasters.lookup event.type with
  | none => event' = event
  | some info =>
    if info.currentVersion ≤ event.eventVersion then event' = event
    else ∃ payload, WalkedTo info tenantId dbs event payload info.currentVersion ∧
      event' = { event with payload := payload, eventVersion := info.currentVersion }

/-- A registered step of the event's chain throws on the payload that the steps below it compose, and
the letter says so. -/
def Quarantined (upcasters : EventUpcasters P D) (tenantId : String) (dbs : List D)
    (event : StoredEvent P M) (letter : UpcasterDeadLetter P) : Prop :=
  ∃ info payload v transform db err, upcasters.lookup event.type = some info ∧
    WalkedTo info tenantId dbs event payload v ∧ v < info.currentVersion ∧
    info.chain.lookup v = some transform ∧ db ∈ dbs ∧ transform payload ⟨db, tenantId⟩ = .error err ∧
    letter = deadLetterRow event event.eventVersion info.currentVersion err

variable {upcasters : EventUpcasters P D} {policy : UpcasterErrorPolicy} {tenantId : String} {dbs dbs' : List D}
  {event event' : StoredEvent P M} {info : UpcasterInfo P D} {payload : P} {v : ℤ}

/-! ## The chain of one event -/

/-- One more step on top of those composed so far. -/
theorem composeSteps_concat {db : D} {found : List D} {start payload payload' : P} {v : ℤ}
    {transform : EventUpcastFn P D} (h : composeSteps info tenantId found start v = some payload)
    (hstep : info.chain.lookup (v + found.length) = some transform)
    (hok : transform payload ⟨db, tenantId⟩ = .ok payload') :
    composeSteps info tenantId (found ++ [db]) start v = some payload' := by
  induction found generalizing start v with
  | nil =>
    simp only [composeSteps, Option.some.injEq] at h
    subst h
    simp only [List.length_nil, Int.natCast_zero, add_zero] at hstep
    simp [composeSteps, hstep, hok, Except.toOption]
  | cons db' found ih =>
    simp only [composeSteps, Option.bind_eq_some_iff] at h
    obtain ⟨f, hf, q, hq, hrest⟩ := h
    have hstep' : info.chain.lookup (v + 1 + found.length) = some transform := by
      rw [← hstep]
      congr 1
      simp only [List.length_cons, Nat.cast_add, Nat.cast_one]
      omega
    simp only [List.cons_append, composeSteps, hf, Option.bind_some, hq]
    exact ih hrest hstep'

/-- Steps that compose are registered, each of them. -/
theorem lookup_of_composeSteps {found : List D} {start payload : P} {v w : ℤ}
    (h : composeSteps info tenantId found start v = some payload) (hv : v ≤ w)
    (hw : w < v + found.length) : info.chain.lookup w ≠ none := by
  induction found generalizing start v with
  | nil =>
    simp only [List.length_nil, Int.natCast_zero, add_zero] at hw
    omega
  | cons db found ih =>
    simp only [composeSteps, Option.bind_eq_some_iff] at h
    obtain ⟨f, hf, q, -, hrest⟩ := h
    rcases eq_or_lt_of_le hv with rfl | hlt
    · simp [hf]
    · refine ih hrest (by omega) ?_
      simp only [List.length_cons, Nat.cast_add, Nat.cast_one] at hw
      omega

theorem WalkedTo.mono (h : WalkedTo info tenantId dbs event payload v) (hsub : dbs ⊆ dbs') :
    WalkedTo info tenantId dbs' event payload v := by
  obtain ⟨found, hmem, hv, hsteps⟩ := h
  exact ⟨found, fun db hdb => hsub (hmem db hdb), hv, hsteps⟩

theorem walkedTo_start : WalkedTo info tenantId dbs event event.payload event.eventVersion :=
  ⟨[], by simp, by simp, rfl⟩

/-- One more step of the walk. -/
theorem WalkedTo.step {db : D} {transform : EventUpcastFn P D} {payload' : P}
    (h : WalkedTo info tenantId dbs event payload v) (hdb : db ∈ dbs)
    (hstep : info.chain.lookup v = some transform)
    (hok : transform payload ⟨db, tenantId⟩ = .ok payload') :
    WalkedTo info tenantId dbs event payload' (v + 1) := by
  obtain ⟨found, hmem, rfl, hsteps⟩ := h
  refine ⟨found ++ [db], ?_, ?_, composeSteps_concat hsteps hstep hok⟩
  · intro db' hdb'
    rcases List.mem_append.1 hdb' with hin | hin
    · exact hmem db' hin
    · rw [List.mem_singleton] at hin
      exact hin ▸ hdb
  · simp only [List.length_append, List.length_singleton, Nat.cast_add, Nat.cast_one]
    omega

/-- A walk passes no gap. -/
theorem WalkedTo.lookup_ne_none {w : ℤ} (h : WalkedTo info tenantId dbs event payload v)
    (hw : event.eventVersion ≤ w) (hwv : w < v) : info.chain.lookup w ≠ none := by
  obtain ⟨found, -, hv, hsteps⟩ := h
  exact lookup_of_composeSteps hsteps hw (hv ▸ hwv)

theorem Upcasted.mono (h : Upcasted upcasters tenantId dbs event event') (hsub : dbs ⊆ dbs') :
    Upcasted upcasters tenantId dbs' event event' := by
  unfold Upcasted at h ⊢
  cases hinfo : upcasters.lookup event.type with
  | none => simpa only [hinfo] using h
  | some info =>
    simp only [hinfo] at h ⊢
    by_cases hle : info.currentVersion ≤ event.eventVersion
    · simpa only [if_pos hle] using h
    · simp only [if_neg hle] at h ⊢
      obtain ⟨payload, hwalk, he⟩ := h
      exact ⟨payload, hwalk.mono hsub, he⟩

theorem Quarantined.mono {letter : UpcasterDeadLetter P}
    (h : Quarantined upcasters tenantId dbs event letter) (hsub : dbs ⊆ dbs') :
    Quarantined upcasters tenantId dbs' event letter := by
  obtain ⟨info, payload, v, transform, db, err, hinfo, hwalk, hv, hstep, hdb, herr, hletter⟩ := h
  exact ⟨info, payload, v, transform, db, err, hinfo, hwalk.mono hsub, hv, hstep, hsub hdb, herr, hletter⟩

/-! ## What holds of each walk -/

/-- What is known of a walk, given the dead letters written for its event. -/
def WalkOk (upcasters : EventUpcasters P D) (policy : UpcasterErrorPolicy) (tenantId : String) (dbs : List D)
    (letters : List (UpcasterDeadLetter P)) (event : StoredEvent P M) : Upcasting P M D → Prop
  | .walking info payload v =>
    letters = [] ∧ upcasters.lookup event.type = some info ∧ event.eventVersion < info.currentVersion ∧
      v ≤ info.currentVersion ∧ WalkedTo info tenantId dbs event payload v
  | .recording fromVersion targetVersion err =>
    letters = [] ∧ policy = .quarantine ∧
      Quarantined upcasters tenantId dbs event (deadLetterRow event fromVersion targetVersion err)
  | .fulfilled (some event') => letters = [] ∧ Upcasted upcasters tenantId dbs event event'
  | .fulfilled none =>
    policy = .quarantine ∧ ∃ letter, letters = [letter] ∧ Quarantined upcasters tenantId dbs event letter
  | .rejected _ => letters = []

theorem WalkOk.mono {letters : List (UpcasterDeadLetter P)} {walk : Upcasting P M D}
    (h : WalkOk upcasters policy tenantId dbs letters event walk) (hsub : dbs ⊆ dbs') :
    WalkOk upcasters policy tenantId dbs' letters event walk := by
  cases walk with
  | walking info payload v =>
    obtain ⟨hnil, hinfo, hlt, hle, hwalk⟩ := h
    exact ⟨hnil, hinfo, hlt, hle, hwalk.mono hsub⟩
  | recording fromVersion targetVersion err =>
    obtain ⟨hnil, hpolicy, hq⟩ := h
    exact ⟨hnil, hpolicy, hq.mono hsub⟩
  | fulfilled result =>
    cases result with
    | none =>
      obtain ⟨hpolicy, letter, hone, hq⟩ := h
      exact ⟨hpolicy, letter, hone, hq.mono hsub⟩
    | some event' => exact ⟨h.1, h.2.mono hsub⟩
  | rejected err => exact h

/-- The walk as it starts. -/
theorem upcastStart_ok :
    WalkOk upcasters policy tenantId dbs [] event (upcastStart upcasters event) := by
  unfold upcastStart
  split
  case h_1 hinfo => exact ⟨rfl, by simp [Upcasted, hinfo]⟩
  case h_2 info hinfo =>
    split
    case isTrue hle => exact ⟨rfl, by simp [Upcasted, hinfo, hle]⟩
    case isFalse hlt => exact ⟨rfl, hinfo, not_le.1 hlt, (not_le.1 hlt).le, walkedTo_start⟩

/-- One turn of the loop. -/
theorem upcastTurn_ok {db : D} {letters : List (UpcasterDeadLetter P)} (hdb : db ∈ dbs)
    (h : WalkOk upcasters policy tenantId dbs letters event (.walking info payload v)) :
    WalkOk upcasters policy tenantId dbs letters event
      (upcastTurn policy ⟨db, tenantId⟩ event info payload v) := by
  obtain ⟨hnil, hinfo, hstored, hle, hwalk⟩ := h
  unfold upcastTurn
  split
  case isFalse hdone =>
    obtain rfl : v = info.currentVersion := by omega
    refine ⟨hnil, ?_⟩
    simp only [Upcasted, hinfo, if_neg (not_le.2 hstored)]
    exact ⟨payload, hwalk, rfl⟩
  case isTrue hlt =>
    cases hstep : info.chain.lookup v with
    | none => exact hnil
    | some transform =>
      cases hres : transform payload ⟨db, tenantId⟩ with
      | ok payload' =>
        simp only [hres]
        exact ⟨hnil, hinfo, hstored, by omega, hwalk.step hdb hstep hres⟩
      | error err =>
        simp only [hres]
        cases policy with
        | throw => exact hnil
        | quarantine =>
          exact ⟨hnil, rfl, info, payload, v, transform, db, err, hinfo, hwalk, hlt, hstep, hdb, hres, rfl⟩

namespace UpcastPass

/-! ## What holds of a pass -/

/-- What every pass satisfies: its walks are those of its events, each is in order, and a walk that
threw has made the pass throw. -/
structure Inv (upcasters : EventUpcasters P D) (policy : UpcasterErrorPolicy) (tenantId : String)
    (events : List (StoredEvent P M)) (pass : UpcastPass P M D) : Prop where
  events_eq : pass.walks.map Prod.fst = events
  walk_ok : ∀ (i : ℕ) event walk, pass.walks[i]? = some (event, walk) →
    WalkOk upcasters policy tenantId pass.databases (pass.lettersOf i) event walk
  rejected : ∀ (i : ℕ) event err, pass.walks[i]? = some (event, .rejected err) → pass.rejection ≠ none

variable {pass pass' : UpcastPass P M D} {events : List (StoredEvent P M)} {i : ℕ} {walk walk' : Upcasting P M D}

@[simp] theorem walks_setWalk : (pass.setWalk i event walk).walks = pass.walks.set i (event, walk) := rfl

/-- The walk at a position after the walk at another or the same position has moved. -/
theorem getElem?_setWalk {j : ℕ} {event' : StoredEvent P M}
    (h : (pass.setWalk i event walk).walks[j]? = some (event', walk')) :
    (j = i ∧ event' = event ∧ walk' = walk) ∨ (j ≠ i ∧ pass.walks[j]? = some (event', walk')) := by
  rw [walks_setWalk, List.getElem?_set] at h
  split at h
  case isTrue heq =>
    split at h
    · cases h
      exact .inl ⟨heq.symm, rfl, rfl⟩
    · cases h
  case isFalse hne => exact .inr ⟨Ne.symm hne, h⟩

/-- The dead letters of a position after one more has been written. -/
theorem lettersOf_concat (pass : UpcastPass P M D) (i : ℕ) (letter : UpcasterDeadLetter P) (j : ℕ) :
    ({ pass with recorded := pass.recorded ++ [(i, letter)] } : UpcastPass P M D).lettersOf j =
      pass.lettersOf j ++ if i = j then [letter] else [] := by
  by_cases hij : i = j <;> simp [lettersOf, List.filter_append, hij]

theorem inv_start (db : D) : Inv upcasters policy tenantId events (start (M := M) upcasters events db) where
  events_eq := by simp [start, Function.comp_def]
  walk_ok i event walk h := by
    simp only [start, List.getElem?_map, Option.map_eq_some_iff, Prod.mk.injEq] at h
    obtain ⟨event', -, rfl, rfl⟩ := h
    split
    · next hempty =>
      rw [List.isEmpty_iff] at hempty
      exact ⟨rfl, by simp [Upcasted, hempty]⟩
    · exact upcastStart_ok
  rejected i event err h := by
    simp only [start, List.getElem?_map, Option.map_eq_some_iff, Prod.mk.injEq] at h
    obtain ⟨event', -, rfl, hwalk⟩ := h
    exfalso
    unfold upcastStart at hwalk
    grind

/-- What one step of the pass can do. -/
theorem step_cases {a : UpcastAct D} (h : pass.step policy tenantId a = some pass') :
    (∃ i event info payload v, pass.walks[i]? = some (event, .walking info payload v) ∧
      pass' = pass.setWalk i event (upcastTurn policy ⟨pass.db, tenantId⟩ event info payload v)) ∨
    (∃ i event fromVersion targetVersion err,
      pass.walks[i]? = some (event, .recording fromVersion targetVersion err) ∧
      pass' = { pass.setWalk i event (.fulfilled none) with
        recorded := pass.recorded ++ [(i, deadLetterRow event fromVersion targetVersion err)] }) ∨
    (∃ i event fromVersion targetVersion err insertErr,
      pass.walks[i]? = some (event, .recording fromVersion targetVersion err) ∧
      pass' = pass.setWalk i event (.rejected (.deadLetterFailed insertErr))) ∨
    (∃ db, pass' = { pass with db := db, pastDbs := pass.db :: pass.pastDbs }) := by
  cases a with
  | turn i =>
    simp only [step] at h
    split at h
    · next event info payload v hi => exact .inl ⟨i, event, info, payload, v, hi, (Option.some.inj h).symm⟩
    · cases h
  | insertOne i =>
    simp only [step] at h
    split at h
    · next event fromVersion targetVersion err hi =>
      exact .inr (.inl ⟨i, event, fromVersion, targetVersion, err, hi, (Option.some.inj h).symm⟩)
    · cases h
  | insertFails i insertErr =>
    simp only [step] at h
    split at h
    · next event fromVersion targetVersion err hi =>
      exact .inr (.inr (.inl
        ⟨i, event, fromVersion, targetVersion, err, insertErr, hi, (Option.some.inj h).symm⟩))
    · cases h
  | changeDb db => exact .inr (.inr (.inr ⟨db, (Option.some.inj h).symm⟩))

/-- The events of the walks are not touched. -/
theorem map_fst_setWalk {old : Upcasting P M D} (hi : pass.walks[i]? = some (event, old)) :
    (pass.setWalk i event walk).walks.map Prod.fst = pass.walks.map Prod.fst := by
  rw [walks_setWalk, List.map_set]
  refine List.ext_getElem? fun j => ?_
  rw [List.getElem?_set]
  split
  · next heq =>
    subst heq
    obtain ⟨hlt, hget⟩ := List.getElem?_eq_some_iff.1 hi
    simp [hlt, hget]
  · rfl

/-- A walk that threw has made the pass throw, also after another walk has moved. -/
theorem rejection_setWalk (hinv : Inv upcasters policy tenantId events pass) {j : ℕ} {event' : StoredEvent P M}
    {err : UpcastError} (h : (pass.setWalk i event walk).walks[j]? = some (event', .rejected err)) :
    (pass.setWalk i event walk).rejection ≠ none := by
  rcases getElem?_setWalk h with ⟨-, -, rfl⟩ | ⟨-, hold⟩
  · simp [setWalk, Upcasting.thrownError]
  · have hset := hinv.rejected j event' err hold
    cases hr : pass.rejection with
    | none => exact absurd hr hset
    | some err' => simp [setWalk, hr]

/-- A walk that moves in order keeps the pass in order. -/
theorem Inv.setWalk {old : Upcasting P M D} (hinv : Inv upcasters policy tenantId events pass)
    (hi : pass.walks[i]? = some (event, old))
    (hok : WalkOk upcasters policy tenantId pass.databases (pass.lettersOf i) event walk) :
    Inv upcasters policy tenantId events (pass.setWalk i event walk) where
  events_eq := (map_fst_setWalk hi).trans hinv.events_eq
  walk_ok j event' walk' h := by
    rcases getElem?_setWalk h with ⟨rfl, rfl, rfl⟩ | ⟨-, hold⟩
    · exact hok
    · exact hinv.walk_ok j event' walk' hold
  rejected _ _ _ h := rejection_setWalk hinv h

theorem inv_step {a : UpcastAct D} (hinv : Inv upcasters policy tenantId events pass)
    (h : pass.step policy tenantId a = some pass') : Inv upcasters policy tenantId events pass' := by
  rcases step_cases h with ⟨i, event, info, payload, v, hi, rfl⟩ | ⟨i, event, from', target, err, hi, rfl⟩ |
    ⟨i, event, from', target, err, insertErr, hi, rfl⟩ | ⟨db, rfl⟩
  · exact hinv.setWalk hi (upcastTurn_ok List.mem_cons_self (hinv.walk_ok i event _ hi))
  · -- the letter just written is the only one of its event
    obtain ⟨hnil, hpolicy, hq⟩ := hinv.walk_ok i event _ hi
    refine ⟨(map_fst_setWalk hi).trans hinv.events_eq, ?_, fun j event' err' hj => rejection_setWalk hinv hj⟩
    intro j event' walk' hj
    rcases getElem?_setWalk hj with ⟨rfl, rfl, rfl⟩ | ⟨hne, hold⟩
    · refine ⟨hpolicy, _, ?_, hq⟩
      refine (lettersOf_concat pass _ _ _).trans ?_
      rw [hnil, if_pos rfl, List.nil_append]
    · have hletters := lettersOf_concat pass i (deadLetterRow event from' target err) j
      rw [if_neg (Ne.symm hne), List.append_nil] at hletters
      have hok := hinv.walk_ok j event' walk' hold
      rw [← hletters] at hok
      exact hok
  · obtain ⟨hnil, -, -⟩ := hinv.walk_ok i event _ hi
    exact hinv.setWalk hi hnil
  · refine ⟨hinv.events_eq, fun i event walk hi => ?_, hinv.rejected⟩
    exact (hinv.walk_ok i event walk hi).mono (List.subset_cons_self _ _)

theorem inv_of_run {db : D} (hr : Run (step policy tenantId) (fun _ _ => True) (start upcasters events db) pass) :
    Inv upcasters policy tenantId events pass :=
  hr.invariant (inv_start db) fun _ _ _ hinv _ h => inv_step hinv h

/-! ## What a pass returns -/

/-- The results are those of the walks, position by position. -/
theorem getElem?_of_mapM {walks : List (StoredEvent P M × Upcasting P M D)}
    {results : List (Option (StoredEvent P M))} (h : walks.mapM (fun walk => walk.2.result) = some results) :
    results.length = walks.length ∧
      ∀ (i : ℕ) event walk, walks[i]? = some (event, walk) → walk.result = results[i]? := by
  induction walks generalizing results with
  | nil =>
    cases h
    exact ⟨rfl, by simp⟩
  | cons first walks ih =>
    simp only [List.mapM_cons, Option.pure_def, Option.bind_eq_bind, Option.bind_eq_some_iff,
      Option.some.injEq] at h
    obtain ⟨result, hresult, rest, hrest, rfl⟩ := h
    obtain ⟨hlen, hget⟩ := ih hrest
    refine ⟨by simp [hlen], fun i event walk hi => ?_⟩
    cases i with
    | zero =>
      cases hi
      exact hresult
    | succ i => exact hget i event walk hi

/-- Results are missing only while some walk has none. -/
theorem exists_of_mapM_eq_none {walks : List (StoredEvent P M × Upcasting P M D)}
    (h : walks.mapM (fun walk => walk.2.result) = none) :
    ∃ (i : ℕ) (event : StoredEvent P M) (walk : Upcasting P M D),
      walks[i]? = some (event, walk) ∧ walk.result = none := by
  induction walks with
  | nil => simp at h
  | cons first walks ih =>
    cases hfirst : first.2.result with
    | none => exact ⟨0, first.1, first.2, rfl, hfirst⟩
    | some result =>
      have hrest : walks.mapM (fun walk => walk.2.result) = none := by
        cases hwalks : walks.mapM (fun walk => walk.2.result) with
        | none => rfl
        | some rest => simp [hfirst, hwalks] at h
      obtain ⟨i, event, walk, hi, hwalk⟩ := ih hrest
      exact ⟨i + 1, event, walk, hi, hwalk⟩

/-- What the results of a pass that returns say of each event: the result is the event upcast, and no
dead letter was written for it, or it is `null`, and one dead letter was. -/
structure Settled (upcasters : EventUpcasters P D) (policy : UpcasterErrorPolicy) (tenantId : String)
    (events : List (StoredEvent P M)) (pass : UpcastPass P M D)
    (results : List (Option (StoredEvent P M))) : Prop where
  length_eq : results.length = events.length
  upcasted : ∀ (i : ℕ) event event', events[i]? = some event → results[i]? = some (some event') →
    Upcasted upcasters tenantId pass.databases event event' ∧ pass.lettersOf i = []
  quarantined : ∀ (i : ℕ) event, events[i]? = some event → results[i]? = some none →
    policy = .quarantine ∧
      ∃ letter, pass.lettersOf i = [letter] ∧ Quarantined upcasters tenantId pass.databases event letter

/-- The walk of an event of the pass. -/
theorem Inv.exists_walk (hinv : Inv upcasters policy tenantId events pass) (hi : events[i]? = some event) :
    ∃ walk, pass.walks[i]? = some (event, walk) := by
  rw [← hinv.events_eq, List.getElem?_map, Option.map_eq_some_iff] at hi
  obtain ⟨⟨event', walk⟩, hwalk, rfl⟩ := hi
  exact ⟨walk, hwalk⟩

/-- A walk that returned is fulfilled. -/
theorem eq_fulfilled {result : Option (StoredEvent P M)} (h : walk.result = some result) :
    walk = .fulfilled result := by
  cases walk with
  | fulfilled result' =>
    cases h
    rfl
  | walking | recording | rejected => cases h

theorem Inv.settled (hinv : Inv upcasters policy tenantId events pass)
    {out : List (StoredEvent P M)} (h : pass.outcome = some (.ok out)) :
    ∃ results, Settled upcasters policy tenantId events pass results ∧ out = results.filterMap id := by
  unfold outcome at h
  split at h
  · cases h
  · simp only [Option.map_eq_some_iff, Except.ok.injEq] at h
    obtain ⟨results, hresults, rfl⟩ := h
    obtain ⟨hlen, hget⟩ := getElem?_of_mapM hresults
    refine ⟨results, ⟨?_, ?_, ?_⟩, rfl⟩
    · rw [hlen, ← hinv.events_eq, List.length_map]
    · intro i event event' hi hr
      obtain ⟨walk, hwalk⟩ := hinv.exists_walk hi
      obtain rfl := eq_fulfilled ((hget i event walk hwalk).trans hr)
      exact (hinv.walk_ok i event _ hwalk).symm
    · intro i event hi hr
      obtain ⟨walk, hwalk⟩ := hinv.exists_walk hi
      obtain rfl := eq_fulfilled ((hget i event walk hwalk).trans hr)
      exact hinv.walk_ok i event _ hwalk

/-- An event with a gap above its stored version does not come out of a pass. -/
theorem Settled.gap {results : List (Option (StoredEvent P M))} {w : ℤ}
    (h : Settled upcasters policy tenantId events pass results) (hi : events[i]? = some event)
    (hinfo : upcasters.lookup event.type = some info) (hw : event.eventVersion ≤ w)
    (hcur : w < info.currentVersion) (hgap : info.chain.lookup w = none) : results[i]? = some none := by
  have hlt : i < results.length := by
    rw [h.length_eq]
    exact (List.getElem?_eq_some_iff.1 hi).1
  cases hr : results[i] with
  | none => rw [List.getElem?_eq_getElem hlt, hr]
  | some event' =>
    have hget : results[i]? = some (some event') := by rw [List.getElem?_eq_getElem hlt, hr]
    obtain ⟨hup, -⟩ := h.upcasted i event event' hi hget
    simp only [Upcasted, hinfo, if_neg (not_le.2 (lt_of_le_of_lt hw hcur))] at hup
    obtain ⟨payload, hwalk, -⟩ := hup
    exact absurd hgap (hwalk.lookup_ne_none hw hcur)

/-! ## A pass comes to its end -/

/-- How many steps a walk can still take. -/
def walkWork : Upcasting P M D → ℕ
  | .walking info _ v => (info.currentVersion - v).toNat + 2
  | .recording _ _ _ => 1
  | .fulfilled _ | .rejected _ => 0

/-- How many steps the walks of a pass can still take. -/
def work (pass : UpcastPass P M D) : ℕ := (pass.walks.map fun walk => walkWork walk.2).sum

theorem sum_map_set_lt {α : Type} {f : α → ℕ} {l : List α} {i : ℕ} {a b : α} (hi : l[i]? = some a)
    (hlt : f b < f a) : ((l.set i b).map f).sum < (l.map f).sum := by
  induction l generalizing i with
  | nil => simp at hi
  | cons first rest ih =>
    cases i with
    | zero =>
      cases hi
      simpa using hlt
    | succ i => simpa using ih hi

theorem work_setWalk {old : Upcasting P M D} (walk : Upcasting P M D) (hi : pass.walks[i]? = some (event, old))
    (hlt : walkWork walk < walkWork old) : (pass.setWalk i event walk).work < pass.work :=
  sum_map_set_lt hi hlt

/-- A turn brings the walk nearer to its end. -/
theorem walkWork_upcastTurn (ctx : EventUpcastCtx D) :
    walkWork (upcastTurn policy ctx event info payload v) < walkWork (.walking info payload v : Upcasting P M D) := by
  unfold upcastTurn
  split
  case isFalse => simp [walkWork]
  case isTrue hlt =>
    cases info.chain.lookup v with
    | none => simp [walkWork]
    | some transform =>
      cases htr : transform payload ctx with
      | ok payload' =>
        simp only [htr, walkWork]
        omega
      | error err => cases policy <;> simp [walkWork, htr]

/-- A pass without an outcome has a walk that can go on. -/
theorem Inv.progress (hinv : Inv upcasters policy tenantId events pass) (h : pass.outcome = none) :
    ∃ a pass', pass.step policy tenantId a = some pass' ∧ pass'.work < pass.work := by
  unfold outcome at h
  split at h
  · cases h
  · next hnone =>
    rw [Option.map_eq_none_iff] at h
    obtain ⟨i, event, walk, hi, hwalk⟩ := exists_of_mapM_eq_none h
    cases walk with
    | walking info payload v =>
      refine ⟨.turn i, _, by simp only [step, hi]; rfl, ?_⟩
      exact work_setWalk _ hi (walkWork_upcastTurn _)
    | recording from' target err =>
      refine ⟨.insertOne i, _, by simp only [step, hi]; rfl, ?_⟩
      exact work_setWalk (.fulfilled none) hi (by simp [walkWork])
    | fulfilled result => cases hwalk
    | rejected err => exact absurd hnone (hinv.rejected i event err hi)

/-- Every pass can be run to its end. -/
theorem Inv.exists_outcome (hinv : Inv upcasters policy tenantId events pass) :
    ∃ pass', Run (step policy tenantId) (fun _ _ => True) pass pass' ∧ pass'.outcome ≠ none := by
  induction hn : pass.work using Nat.strong_induction_on generalizing pass with
  | _ n ih =>
    cases ho : pass.outcome with
    | some outcome => exact ⟨pass, .start, by simp [ho]⟩
    | none =>
      obtain ⟨a, next, hstep, hlt⟩ := hinv.progress ho
      obtain ⟨pass', hrun, hout⟩ := ih next.work (hn ▸ hlt) (inv_step hinv hstep) rfl
      exact ⟨pass', .trans (.next .start trivial hstep) hrun, hout⟩

end UpcastPass

open UpcastPass in
/-- In whatever order the walks of a pass take their turns, and whatever the database does meanwhile, the
pass comes to an end. When it returns, its events are in input order, each upcast, and missing are
exactly those with a dead letter, under `quarantine` only. An event whose chain has a gap below the
current version never comes out: the pass returns only when a registered step of that chain threw
first and the event was quarantined. -/
theorem upcastStoredEvents_fate {db : D} {events : List (StoredEvent P M)} {pass : UpcastPass P M D}
    (hr : Run (step policy tenantId) (fun _ _ => True) (start upcasters events db) pass) :
    (∀ out, pass.outcome = some (.ok out) →
      ∃ results, Settled upcasters policy tenantId events pass results ∧ out = results.filterMap id) ∧
    (∀ (i : ℕ) event info w, events[i]? = some event → upcasters.lookup event.type = some info →
      event.eventVersion ≤ w → w < info.currentVersion → info.chain.lookup w = none →
      ∀ out, pass.outcome = some (.ok out) → policy = .quarantine ∧
        ∃ letter, pass.lettersOf i = [letter] ∧
          Quarantined upcasters tenantId pass.databases event letter) ∧
    ∃ pass', Run (step policy tenantId) (fun _ _ => True) pass pass' ∧ pass'.outcome ≠ none := by
  have hinv := inv_of_run hr
  refine ⟨fun out h => hinv.settled h, ?_, hinv.exists_outcome⟩
  intro i event info w hi hinfo hw hcur hgap out h
  obtain ⟨results, hsettled, -⟩ := hinv.settled h
  exact hsettled.quarantined i event hi (hsettled.gap hi hinfo hw hcur hgap)

end

/-! ## Two events of a shop -/

/-- An event of an order. -/
def orderEvent (id type : String) (eventVersion : ℤ) (payload : String) : StoredEvent String Unit :=
  { id, aggregateId := "order-1", aggregateType := "order", tenantId := "tenant-1", version := 1, type,
    eventVersion, payload, metadata := (), createdAt := 0, createdBy := "user-1" }

/-- Prices went from cents to a text with the currency in two steps; notes have a broken first step and
no second one. -/
def orderUpcasters : EventUpcasters String Unit :=
  [("order:priced",
      ⟨3, [(1, fun payload _ => .ok (payload ++ " cents")), (2, fun payload _ => .ok (payload ++ " EUR"))]⟩),
   ("order:noted", ⟨3, [(1, fun _ _ => .error (.error "payload malformed"))]⟩)]

/-- A price at version 1 and a note at version 1. -/
def orderEvents : List (StoredEvent String Unit) :=
  [orderEvent "10" "order:priced" 1 "500", orderEvent "11" "order:noted" 1 "hello"]

/-- The walks of both events take turns. -/
def orderTurns : List (UpcastAct Unit) := [.turn 0, .turn 1, .turn 0, .insertOne 1, .turn 0]

theorem exec_orderTurns :
    ∃ pass, exec (UpcastPass.step .quarantine "tenant-1") (.start orderUpcasters orderEvents ()) orderTurns =
      some pass ∧ pass.outcome = some (.ok [orderEvent "10" "order:priced" 3 "500 cents EUR"]) :=
  ⟨_, rfl, rfl⟩

theorem upcastStoredEvents_fate_order :
    ∃ pass, Run (UpcastPass.step .quarantine "tenant-1") (fun _ _ => True)
        (.start orderUpcasters orderEvents ()) pass ∧
      pass.outcome = some (.ok [orderEvent "10" "order:priced" 3 "500 cents EUR"]) ∧
      ∃ results, UpcastPass.Settled orderUpcasters .quarantine "tenant-1" orderEvents pass results ∧
        [orderEvent "10" "order:priced" 3 "500 cents EUR"] = results.filterMap id := by
  obtain ⟨pass, hexec, hout⟩ := exec_orderTurns
  have hr := Run.of_exec hexec
  exact ⟨pass, hr, hout, (upcastStoredEvents_fate hr).1 _ hout⟩

/-- An event from a later release comes out at its own version and not at the current one. And a gap does
not always make the pass throw: the note's first step fails under `quarantine` before its walk
reaches the missing second one, and the pass returns. -/
theorem not_upcastsToCurrent :
    (∃ pass, Run (UpcastPass.step .throw "tenant-1") (fun _ _ => True)
        (.start orderUpcasters [orderEvent "12" "order:priced" 5 "500"] ()) pass ∧
      ∃ event, pass.outcome = some (.ok [event]) ∧ event.eventVersion = 5 ∧
        ((orderUpcasters.lookup event.type).map UpcasterInfo.currentVersion) = some 3) ∧
    ∃ pass, Run (UpcastPass.step .quarantine "tenant-1") (fun _ _ => True)
        (.start orderUpcasters orderEvents ()) pass ∧
      (((orderUpcasters.lookup "order:noted").map fun info => (info.chain.lookup 2).isNone) = some true) ∧
      ∃ out, pass.outcome = some (.ok out) := by
  constructor
  · exact ⟨_, .start, orderEvent "12" "order:priced" 5 "500", rfl, rfl, rfl⟩
  · obtain ⟨pass, hexec, hout⟩ := exec_orderTurns
    exact ⟨pass, .of_exec hexec, rfl, _, hout⟩

end Kumiko
