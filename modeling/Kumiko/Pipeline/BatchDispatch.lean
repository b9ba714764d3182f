import Kumiko.Pipeline.JsonText

/-!
# Dispatching a batch

`pipeline/dispatch-batch.ts` and `pipeline/pre-transaction-reservations.ts`: `runBatch` checks the request id,
reserves, runs the commands in one transaction, and stores the result. Without a database, or for a `perCommand`
handler, there is no transaction. Every outcome of a gate, a reservation, a command, the COMMIT or a hook is an
action.
-/

namespace Kumiko

/-! ## Results -/

/-- JSON data of a handler. -/
abbrev JsonData := { tree : JsonTree // tree.Valid }

/-- An error as a result carries it. Reference: `WriteErrorInfo`. -/
structure WriteErrorInfo where
  code : String
  httpStatus : ℕ
  i18nKey : String
  message : String
  details : Option JsonData

/-- Reference: `WriteResult`. -/
inductive WriteResult where
  | success (data : JsonData)
  | failure (error : WriteErrorInfo)

/-- Reference: `BatchResult`. -/
inductive BatchResult where
  | success (results : List WriteResult)
  | failure (error : WriteErrorInfo) (failedIndex : ℕ) (results : List WriteResult)

def WriteResult.isSuccess : WriteResult → Bool
  | .success _ => true
  | .failure _ => false

namespace JsonTree

def ofNat (n : ℕ) : JsonTree := .number (numberOfNat n)

def ofError (error : WriteErrorInfo) : JsonTree :=
  .object ([("code", .text error.code), ("httpStatus", .ofNat error.httpStatus), ("i18nKey", .text error.i18nKey),
    ("message", .text error.message)] ++ error.details.toList.map fun details => ("details", details.1))

def ofWrite : WriteResult → JsonTree
  | .success data => .object [("isSuccess", .bool true), ("data", data.1)]
  | .failure error => .object [("isSuccess", .bool false), ("error", .ofError error)]

def ofBatch : BatchResult → JsonTree
  | .success results => .object [("isSuccess", .bool true), ("results", .array (results.map .ofWrite))]
  | .failure error failedIndex results =>
    .object [("isSuccess", .bool false), ("error", .ofError error), ("failedIndex", .ofNat failedIndex),
      ("results", .array (results.map .ofWrite))]

/-- A condition takes the value for true. A number is false when no digit before the exponent counts. -/
def truthy : JsonTree → Bool
  | .null => false
  | .bool b => b
  | .number n => ((n.head :: n.tail).takeWhile fun c => c ≠ 'e' ∧ c ≠ 'E').any fun c => c.isDigit ∧ c ≠ '0'
  | .text s => s ≠ ""
  | .array _ | .object _ => true

theorem validItems_iff {items : List JsonTree} : ValidItems items ↔ ∀ item ∈ items, item.Valid := by
  induction items with
  | nil => simp [ValidItems]
  | cons item items ih => simp [ValidItems, ih]

theorem ofNat_valid (n : ℕ) : (ofNat n).Valid := by
  rw [ofNat, Valid]
  exact numberOfNat_valid n

theorem ofError_valid (error : WriteErrorInfo) : (ofError error).Valid := by
  obtain ⟨code, httpStatus, i18nKey, message, details⟩ := error
  cases details with
  | none => simp [ofError, Valid, ValidFields, ofNat_valid]
  | some details => simp [ofError, Valid, ValidFields, ofNat_valid, details.2]

theorem ofWrite_valid (result : WriteResult) : (ofWrite result).Valid := by
  cases result with
  | success data => simp [ofWrite, Valid, ValidFields, data.2]
  | failure error => simp [ofWrite, Valid, ValidFields, ofError_valid]

theorem ofBatch_valid (result : BatchResult) : (ofBatch result).Valid := by
  have hresults (results : List WriteResult) : ValidItems (results.map .ofWrite) := by
    refine validItems_iff.2 fun item hitem => ?_
    obtain ⟨result, -, rfl⟩ := List.mem_map.1 hitem
    exact ofWrite_valid result
  cases result with
  | success results => simp [ofBatch, Valid, ValidFields, hresults]
  | failure error failedIndex results =>
    simp [ofBatch, Valid, ValidFields, ofError_valid, ofNat_valid, hresults]

theorem ofBatch_truthy (result : BatchResult) : (ofBatch result).truthy = true := by
  cases result with
  | success | failure => rfl

end JsonTree

/-! ## Reservations -/

/-- What the registry knows of a handler. Reference: `WriteHandlerDef`. -/
structure WriteHandlerDef where
  /-- `transaction: "perCommand"`. -/
  perCommand : Bool
  reserveBeforeTransaction : Bool
  beforeTransaction : Bool

/-- Reference: `hasPreTransactionPhase`. -/
def WriteHandlerDef.hasPreTransactionPhase (handler : WriteHandlerDef) : Bool :=
  handler.reserveBeforeTransaction || handler.beforeTransaction

/-- How one reservation ends: without anything to give back, with something, or by throwing. -/
inductive ReservationOutcome where
  | nothing
  | taken (name : String)
  | throws (error : WriteErrorInfo)

/-- A handler's reservation as it runs. -/
inductive PreTransactionReservation where
  | own (outcome : ReservationOutcome)
  | chained (inner own : PreTransactionReservation)

/-- Reference: `chainReservations`. -/
def chainReservations (inner : Option PreTransactionReservation) (own : PreTransactionReservation) :
    PreTransactionReservation :=
  match inner with
  | none => own
  | some inner => .chained inner own

/-- What a reservation took and gave back, and what releasing it will give back, in this order. -/
structure Reserving where
  acquired : List String
  released : List String
  handle : Except WriteErrorInfo (Option (List String))

/-- The reservation runs. A chain takes the inner one first and releases it last; a failing own part gives the
inner one back. -/
def PreTransactionReservation.run : PreTransactionReservation → Reserving
  | .own .nothing => ⟨[], [], .ok none⟩
  | .own (.taken name) => ⟨[name], [], .ok (some [name])⟩
  | .own (.throws error) => ⟨[], [], .error error⟩
  | .chained inner outer =>
    match inner.run.handle with
    | .error error => ⟨inner.run.acquired, inner.run.released, .error error⟩
    | .ok innerHandle =>
      match outer.run.handle with
      | .error error =>
        ⟨inner.run.acquired ++ outer.run.acquired,
          inner.run.released ++ outer.run.released ++ innerHandle.getD [], .error error⟩
      | .ok ownHandle =>
        ⟨inner.run.acquired ++ outer.run.acquired, inner.run.released ++ outer.run.released,
          .ok (some (ownHandle.getD [] ++ innerHandle.getD []))⟩

/-- How `beforeTransaction` ends. -/
inductive BeforeTransactionResult where
  | success (release : Option String)
  | failure (error : WriteErrorInfo)

/-- How the phases of a command before the transaction go. A thrown error ends them like a failure. -/
structure PreTransactionRun where
  gates : Option WriteErrorInfo
  reservation : PreTransactionReservation
  before : BeforeTransactionResult

/-- What the phases of a command took and gave back, and the releases they leave, or the error they end with. -/
structure CommandReservation where
  acquired : List String
  released : List String
  releases : List (List String)
  error : Option WriteErrorInfo

/-- The phases of one command, with the releases of the commands before. Reference: the loop body of
`reserveBeforeTransaction`. -/
def reserveCommand (handler : WriteHandlerDef) (run : PreTransactionRun) (releases : List (List String)) :
    CommandReservation :=
  match run.gates with
  | some error => ⟨[], [], releases, some error⟩
  | none =>
    let taken := if handler.reserveBeforeTransaction then run.reservation.run else ⟨[], [], .ok none⟩
    match taken.handle with
    | .error error => ⟨taken.acquired, taken.released, releases, some error⟩
    | .ok handle =>
      if handler.beforeTransaction then
        match run.before with
        | .failure error => ⟨taken.acquired, taken.released, releases ++ handle.toList, some error⟩
        | .success release =>
          ⟨taken.acquired ++ release.toList, taken.released, releases ++ handle.toList ++ release.toList.map ([·]), none⟩
      else ⟨taken.acquired, taken.released, releases ++ handle.toList, none⟩

/-- What releasing everything gives back, in this order. Reference: `releaseAll`. -/
def releaseAll (releases : List (List String)) : List String := releases.reverse.flatten

/-- A failing reservation has given back what it took, and a release gives back what was taken, last first. -/
def Reserving.Balanced (r : Reserving) : Prop :=
  match r.handle with
  | .error _ => r.released = r.acquired.reverse
  | .ok handle => r.released = [] ∧ handle.getD [] = r.acquired.reverse

theorem PreTransactionReservation.run_balanced (r : PreTransactionReservation) : r.run.Balanced := by
  induction r with
  | own outcome => cases outcome with
    | nothing | taken name | throws error => simp [Reserving.Balanced, run]
  | chained inner own ihInner ihOwn =>
    unfold Reserving.Balanced at ihInner ihOwn
    rw [run]
    cases hinner : inner.run.handle with
    | error error =>
      rw [hinner] at ihInner
      exact ihInner
    | ok innerHandle =>
      rw [hinner] at ihInner
      obtain ⟨hnone, hgives⟩ := ihInner
      cases hown : own.run.handle with
      | error error =>
        rw [hown] at ihOwn
        simp [Reserving.Balanced, hnone, hgives, ihOwn]
      | ok ownHandle =>
        rw [hown] at ihOwn
        simp [Reserving.Balanced, hnone, hgives, ihOwn]

/-- What the phases of a command took is on the releases, or given back. -/
theorem reserveCommand_spec (handler : WriteHandlerDef) (run : PreTransactionRun) (releases : List (List String)) :
    let r := reserveCommand handler run releases
    r.released ++ releaseAll r.releases = r.acquired.reverse ++ releaseAll releases ∧
      (r.error = none → r.released = []) := by
  obtain ⟨gates, reservation, before⟩ := run
  cases gates with
  | some error => simp [reserveCommand, releaseAll]
  | none =>
    simp only [reserveCommand]
    generalize htake : (if handler.reserveBeforeTransaction then reservation.run else ⟨[], [], .ok none⟩) = taken
    have hbalanced : taken.Balanced := by
      rw [← htake]
      cases handler.reserveBeforeTransaction with
      | true => exact reservation.run_balanced
      | false => exact ⟨rfl, rfl⟩
    unfold Reserving.Balanced at hbalanced
    cases hhandle : taken.handle with
    | error error =>
      rw [hhandle] at hbalanced
      simp [hbalanced, releaseAll]
    | ok handle =>
      rw [hhandle] at hbalanced
      obtain ⟨hnone, hgives⟩ := hbalanced
      have hflat : handle.toList.flatten = taken.acquired.reverse := by
        cases handle with
        | none | some names => simpa using hgives
      have hreverse : handle.toList.reverse = handle.toList := by cases handle with
        | none | some names => rfl
      cases hb : handler.beforeTransaction with
      | false => simp [hnone, hflat, hreverse, releaseAll]
      | true =>
        cases before with
        | failure error => simp [hnone, hflat, hreverse, releaseAll]
        | success release =>
          cases release with
          | none | some name => simp [hnone, hflat, hreverse, releaseAll]

/-! ## Calls -/

/-- What the dispatcher has: the registry, whether an idempotency guard and a database are there, and the masking of
a result. Reference: `DispatchContext`. -/
structure DispatchContext where
  getWriteHandler : String → Option WriteHandlerDef
  idempotency : Bool
  db : Bool
  maskBatchResultForClient : List String → BatchResult → BatchResult

/-- One call of `runBatch`: the types of its commands, whether it carries the request id, and whether its user
resolves members. -/
structure BatchRequest where
  commands : List String
  requestId : Bool
  memberResolution : Bool

/-- How the COMMIT ends. It may fail although the transaction was committed. -/
inductive CommitOutcome where
  | ok
  | failed (error : WriteErrorInfo) (applied : Bool)

/-- What follows the releases: the result is stored, or the claim released where that is allowed, or the error is
thrown on. -/
inductive AfterRelease where
  | finish (result : BatchResult) (retryable : Bool)
  | rethrow

/-- Where a call is. -/
inductive BatchPhase where
  | idle
  /-- In `idempotency.check`. -/
  | checking
  | reserving (index : ℕ)
  /-- Before the BEGIN. -/
  | beginning
  | running (index : ℕ)
  | committing
  | releasing (todo : List String) (next : AfterRelease)
  /-- Before the hooks that wait for the commit. -/
  | flushing
  | finishing (result : BatchResult) (retryable : Bool)
  | returned (answer : JsonTree)
  | thrown
  /-- Its process has ended. -/
  | dead

variable {E : Type*}

/-- A call: the token it claimed the request id with, the releases it holds, what it has taken and given back, its
results, what its transaction has written, and everything its commands have written; how its COMMIT ended, the
hooks that wait for the commit, and the ones that ran. -/
structure BatchRun (E : Type*) where
  phase : BatchPhase
  token : Option String
  releases : List (List String)
  acquired : List String
  released : List String
  results : List WriteResult
  pending : List E
  made : List E
  commit : Option CommitOutcome
  hooks : List String
  fired : List String

def BatchRun.empty : BatchRun E := ⟨.idle, none, [], [], [], [], [], [], none, [], []⟩

/-- The key of the request id, what is committed and by which call, and the calls. -/
structure BatchState (E : Type*) where
  guard : GuardedKey
  db : List (ℕ × E)
  runs : ℕ → BatchRun E

/-- A step of a call, with how it goes. -/
inductive BatchAct (E : Type*) where
  | dispatch (r : ℕ)
  /-- A request of the check to Redis. -/
  | check (r : ℕ) (a : GuardAct)
  /-- The key's time to live ends. -/
  | expire
  | reserve (r : ℕ) (run : PreTransactionRun)
  | begin (r : ℕ) (error : Option WriteErrorInfo)
  /-- A write of the running command that no savepoint takes back. -/
  | write (r : ℕ) (e : E)
  | hook (r : ℕ) (name : String)
  /-- The running command returns a result. Where that is a failure, the ROLLBACK may fail too. -/
  | settle (r : ℕ) (result : WriteResult) (rollback : Option WriteErrorInfo)
  | throws (r : ℕ) (error : WriteErrorInfo)
  | commit (r : ℕ) (outcome : CommitOutcome)
  | release (r : ℕ)
  | flush (r : ℕ)
  | finish (r : ℕ)
  /-- The process of the call ends. A COMMIT that is on its way may be applied. -/
  | crash (r : ℕ) (applied : Bool)

/-- The step is one of a call's check. Reference: `idempotency.check`. -/
def GuardAct.checkOf (r : ℕ) : GuardAct → Bool
  | .setNx r' _ | .get r' | .deadline r' => r' = r
  | .check _ | .store .. | .release _ | .expire | .crash _ => false

def WriteErrorInfo.retryable (error : WriteErrorInfo) : Bool := 500 ≤ error.httpStatus

/-- Reference: `UnprocessableError("per_command_handler_in_batch")`. -/
def perCommandHandlerInBatch (type : String) : WriteErrorInfo where
  code := "unprocessable"
  httpStatus := 422
  i18nKey := "errors.unprocessable"
  message := "handler \"" ++ type ++ "\" runs without a transaction (transaction: \"perCommand\") and cannot be part of a multi-command batch"
  details := some ⟨.object [("reason", .text "per_command_handler_in_batch")], by
    simp [JsonTree.Valid, JsonTree.ValidFields]⟩

namespace DispatchContext

variable (ctx : DispatchContext)

/-- Reference: `isPerCommandHandler`. -/
def isPerCommandHandler (type : String) : Bool := (ctx.getWriteHandler type).any (·.perCommand)

/-- Reference: `perCommandBatchRejection`. -/
def perCommandBatchRejection (req : BatchRequest) : Option BatchResult :=
  match req.commands.findIdx? ctx.isPerCommandHandler with
  | none => none
  | some index =>
    if req.commands.length < 2 then none
    else some (.failure (perCommandHandlerInBatch (req.commands.getD index "")) index [])

/-- The commands run without a transaction of the batch. -/
def direct (req : BatchRequest) : Bool := !ctx.db || req.commands.any ctx.isPerCommandHandler

/-- The call has a claim to ask for. -/
def keyed (req : BatchRequest) : Bool := req.requestId && ctx.idempotency

/-- After the check. Reference: `runBatchBody`. -/
def afterCheck (req : BatchRequest) (run : BatchRun E) (token : Option String) : BatchRun E :=
  match ctx.perCommandBatchRejection req with
  | some rejection => { run with phase := .finishing rejection false, token }
  | none => { run with phase := .reserving (if req.memberResolution then req.commands.length else 0), token }

/-- What the call makes of the key after a request of its check. Reference: `checkBatchIdempotency`. -/
def proceed (req : BatchRequest) (run : BatchRun E) : RequestPhase → BatchRun E
  | .acquired token => ctx.afterCheck req run (some token)
  | .cached text =>
    if (parseJsonSafe text .null).truthy then { run with phase := .returned (parseJsonSafe text .null) }
    else ctx.afterCheck req run none
  | .failed => { run with phase := .thrown }
  | _ => run

/-- Where the loop over the commands goes on. -/
def nextCommand (req : BatchRequest) (index : ℕ) : BatchPhase :=
  if index < req.commands.length then .running index else if ctx.direct req then .flushing else .committing

/-- The batch fails: everything it holds is released first. -/
def fail (run : BatchRun E) (next : AfterRelease) : BatchRun E :=
  { run with phase := .releasing (releaseAll run.releases) next, pending := [] }

/-- The end of a `transaction` call that threw. Reference: the `catch` of `runBatchBody`. -/
def failTransaction (run : BatchRun E) (error : WriteErrorInfo) (failedIndex : ℕ) (retryable : Bool) : BatchRun E :=
  fail run (.finish (.failure error failedIndex run.results) (retryable && error.retryable))

end DispatchContext

namespace BatchState

variable (ctx : DispatchContext) (req : ℕ → BatchRequest) (s : BatchState E)

def initial : BatchState E := ⟨.initial, [], fun _ => .empty⟩

def setRun (r : ℕ) (run : BatchRun E) : BatchState E := { s with runs := Function.update s.runs r run }

/-- What a call has committed. -/
def writesOf (r : ℕ) : List E := (s.db.filter (·.1 = r)).map (·.2)

/-- Writes that are committed. -/
def land (r : ℕ) (writes : List E) : BatchState E := { s with db := s.db ++ writes.map (r, ·) }

/-- The call starts. Reference: `runBatchBody`. -/
def dispatch (r : ℕ) : Option (BatchState E) :=
  match (s.runs r).phase with
  | .idle =>
    if (req r).commands = [] then
      some (s.setRun r { s.runs r with phase := .returned (.ofBatch (.success [])) })
    else if ctx.keyed (req r) then
      (s.guard.step (.check r)).map fun guard =>
        { s.setRun r { s.runs r with phase := .checking } with guard }
    else some (s.setRun r (ctx.afterCheck (req r) (s.runs r) none))
  | _ => none

/-- A request of the call's check. -/
def check (r : ℕ) (a : GuardAct) : Option (BatchState E) :=
  match (s.runs r).phase with
  | .checking =>
    if a.checkOf r then
      (s.guard.step a).map fun guard =>
        { s.setRun r (ctx.proceed (req r) (s.runs r) (guard.requests r)) with guard }
    else none
  | _ => none

/-- The phases before the transaction, one command at a time. Reference: `reserveBeforeTransaction`. -/
def reserve (r : ℕ) (run : PreTransactionRun) : Option (BatchState E) :=
  match (s.runs r).phase with
  | .reserving index =>
    match (req r).commands[index]? with
    | none =>
      some (s.setRun r { s.runs r with
        phase := if ctx.direct (req r) then ctx.nextCommand (req r) 0 else .beginning })
    | some type =>
      match ctx.getWriteHandler type with
      | none => some (s.setRun r { s.runs r with phase := .reserving (index + 1) })
      | some handler =>
        if handler.hasPreTransactionPhase then
          let res := reserveCommand handler run (s.runs r).releases
          let next := { s.runs r with
            releases := res.releases
            acquired := (s.runs r).acquired ++ res.acquired
            released := (s.runs r).released ++ res.released }
          match res.error with
          | none => some (s.setRun r { next with phase := .reserving (index + 1) })
          | some error => some (s.setRun r (DispatchContext.fail next (.finish (.failure error index []) error.retryable)))
        else some (s.setRun r { s.runs r with phase := .reserving (index + 1) })
  | _ => none

/-- The BEGIN of the batch's transaction. -/
def begin (r : ℕ) (error : Option WriteErrorInfo) : Option (BatchState E) :=
  match (s.runs r).phase, error with
  | .beginning, none => some (s.setRun r { s.runs r with phase := ctx.nextCommand (req r) 0 })
  | .beginning, some error =>
    some (s.setRun r (DispatchContext.failTransaction (s.runs r) error (s.runs r).results.length true))
  | _, _ => none

/-- A write of a command, in the batch's transaction or committed by itself. -/
def write (r : ℕ) (e : E) : Option (BatchState E) :=
  match (s.runs r).phase with
  | .running _ =>
    if ctx.direct (req r) then some ((s.setRun r { s.runs r with made := (s.runs r).made ++ [e] }).land r [e])
    else some (s.setRun r { s.runs r with made := (s.runs r).made ++ [e], pending := (s.runs r).pending ++ [e] })
  | _ => none

/-- A command registers work for after the commit. -/
def hook (r : ℕ) (name : String) : Option (BatchState E) :=
  match (s.runs r).phase with
  | .running _ => some (s.setRun r { s.runs r with hooks := (s.runs r).hooks ++ [name] })
  | _ => none

/-- A command returns. Reference: `runCommandsWithoutTransaction` and the callback of `transaction`. -/
def settle (r : ℕ) (result : WriteResult) (rollback : Option WriteErrorInfo) : Option (BatchState E) :=
  match (s.runs r).phase with
  | .running index =>
    let run := { s.runs r with results := (s.runs r).results ++ [result] }
    match result with
    | .success _ => some (s.setRun r { run with phase := ctx.nextCommand (req r) (index + 1) })
    | .failure error =>
      if ctx.direct (req r) then
        some (s.setRun r (DispatchContext.fail run (.finish (.failure error index run.results) false)))
      else match rollback with
        | none => some (s.setRun r (DispatchContext.failTransaction run error index true))
        | some error => some (s.setRun r (DispatchContext.failTransaction run error run.results.length true))
  | _ => none

/-- A command throws. -/
def throws (r : ℕ) (error : WriteErrorInfo) : Option (BatchState E) :=
  match (s.runs r).phase with
  | .running _ =>
    if ctx.direct (req r) then some (s.setRun r (DispatchContext.fail (s.runs r) .rethrow))
    else some (s.setRun r (DispatchContext.failTransaction (s.runs r) error (s.runs r).results.length true))
  | _ => none

/-- The COMMIT. What it wrote is there when it is applied, whatever the client hears of it. -/
def commit (r : ℕ) (outcome : CommitOutcome) : Option (BatchState E) :=
  match (s.runs r).phase with
  | .committing =>
    let run := { s.runs r with commit := some outcome }
    match outcome with
    | .ok => some ((s.setRun r { run with phase := .flushing, pending := [] }).land r run.pending)
    | .failed error applied =>
      some ((s.setRun r (DispatchContext.failTransaction run error run.results.length false)).land r
        (if applied then run.pending else []))
  | _ => none

/-- One release, which may fail. -/
def release (r : ℕ) : Option (BatchState E) :=
  match (s.runs r).phase with
  | .releasing (name :: todo) next =>
    some (s.setRun r { s.runs r with phase := .releasing todo next, released := (s.runs r).released ++ [name] })
  | .releasing [] (.finish result retryable) =>
    some (s.setRun r { s.runs r with phase := .finishing result retryable })
  | .releasing [] .rethrow => some (s.setRun r { s.runs r with phase := .thrown })
  | _ => none

/-- The hooks run. A failing one is logged. Reference: `flushAfterCommit`. -/
def flush (r : ℕ) : Option (BatchState E) :=
  match (s.runs r).phase with
  | .flushing =>
    some (s.setRun r { s.runs r with
      phase := .finishing (.success (s.runs r).results) false, fired := (s.runs r).hooks })
  | _ => none

/-- The result is stored under the request id, or the claim is released. Reference: `releaseOrFinalize`. -/
def finish (r : ℕ) : Option (BatchState E) :=
  match (s.runs r).phase with
  | .finishing result retryable =>
    let masked := JsonTree.ofBatch (ctx.maskBatchResultForClient (req r).commands result)
    let s' := s.setRun r { s.runs r with phase := .returned masked }
    match (s.runs r).token with
    | none => some s'
    | some _ =>
      if retryable then (s.guard.step (.release r)).map fun guard => { s' with guard }
      else (s.guard.step (.store r (some masked))).map fun guard => { s' with guard }
  | _ => none

/-- The process of a call ends, which a transaction survives only if its COMMIT is applied. -/
def crash (r : ℕ) (applied : Bool) : Option (BatchState E) :=
  match (s.runs r).phase with
  | .returned _ | .thrown | .dead => none
  | .committing =>
    (s.guard.step (.crash r)).map fun guard =>
      let dead := { s.runs r with phase := .dead, pending := [] }
      if applied then
        { (s.setRun r { dead with commit := some .ok }).land r (s.runs r).pending with guard }
      else { s.setRun r dead with guard }
  | _ =>
    (s.guard.step (.crash r)).map fun guard =>
      { s.setRun r { s.runs r with phase := .dead, pending := [] } with guard }

def step : BatchAct E → Option (BatchState E)
  | .dispatch r => s.dispatch ctx req r
  | .check r a => s.check ctx req r a
  | .expire => (s.guard.step .expire).map fun guard => { s with guard }
  | .reserve r run => s.reserve ctx req r run
  | .begin r error => s.begin ctx req r error
  | .write r e => s.write ctx req r e
  | .hook r name => s.hook r name
  | .settle r result rollback => s.settle ctx req r result rollback
  | .throws r error => s.throws ctx req r error
  | .commit r outcome => s.commit r outcome
  | .release r => s.release r
  | .flush r => s.flush r
  | .finish r => s.finish ctx req r
  | .crash r applied => s.crash r applied

/-- `generateId` gives a new id each time. -/
def FreshIds : BatchAct E → Prop
  | .check _ a => s.guard.FreshIds a
  | _ => True

end BatchState

end Kumiko
