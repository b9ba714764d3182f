import Kumiko.Caps.Reservations

/-!
# Clients on the caps

The state machine of the caps: clients that each run one statement at a time over what is committed. A statement
waits for a row that another transaction has claimed and for an event that it has staged on the same stream; an
append that is not one above what has been read is a conflict.
-/

namespace Kumiko

/-! ## Bookings -/

/-- The event of a booking. No booking touches a rolling cap. Reference: `applyCapDeltaOn` and `rollingEvent`. -/
def CapBooking.event (b : CapBooking) (value : ℤ) (startedAt : ℕ) : CapEvent :=
  match b.key, b.direction with
  | .calendar .., .add => .counted (value + b.amount)
  | .calendar .., .subtract => .counted (max 0 (value - b.amount))
  | .calendar .., .touch => .counted value
  | .rolling .., .add => .incremented b.amount startedAt
  | .rolling .., .subtract => .released b.amount startedAt b.incrementedAt
  | .rolling .., .touch => .incremented 0 startedAt

/-- The guard throws on the value read. -/
def CapBooking.Rejected (b : CapBooking) (value : ℤ) : Prop := ∃ cap ∈ b.guard, cap.Exceeded (value + b.amount - 1)

instance (b : CapBooking) (value : ℤ) : Decidable (b.Rejected value) :=
  inferInstanceAs (Decidable (∃ cap ∈ b.guard, _))

/-- The usage of the cap: the value of a calendar counter, or the sum over the window. -/
def CapBooking.usage (b : CapBooking) (now : ℕ) (es : List CapEvent) : ℤ :=
  match b.window with
  | none => capValue es
  | some window => rollingUsage window now es

/-- A booking whose event is appended, and the usage at that moment. -/
structure Appended where
  booking : CapBooking
  usage : ℤ
  event : CapEvent

/-! ## States -/

/-- A client: the command that its transaction is for, none for a handler's, and what the transaction has staged
and locked. -/
structure CapClient where
  inTx : Bool
  own : Option CapOp
  tenantId : String
  startedAt : ℕ
  staged : List Appended
  writes : List RowWrite
  locked : List String
  phase : CapPhase

namespace CapClient

def closed : CapClient := ⟨false, none, "", 0, [], [], [], .idle⟩

/-- A command that fails takes its own transaction with it; a handler may go on. -/
def givenUp (cl : CapClient) : CapClient := if cl.own.isSome then closed else { cl with phase := .idle }

/-- After the last statement of a command. -/
def finished (cl : CapClient) (writes : List RowWrite) (locked : List String) : CapClient :=
  { cl with
    writes := cl.writes ++ writes, locked := locked ++ cl.locked, phase := if cl.own.isSome then .done else .idle }

def CanCommit (cl : CapClient) : Prop := cl.inTx = true ∧ (cl.phase = .done ∨ cl.own = none ∧ cl.phase = .idle)

instance (cl : CapClient) : Decidable cl.CanCommit := inferInstanceAs (Decidable (_ ∧ (_ ∨ _ ∧ _)))

end CapClient

/-- What is committed, and the clients. `past` and `booked` are what has been: the reservations whose rows are
gone, and the bookings that were committed. -/
structure Caps (n : ℕ) where
  now : ℕ
  streams : CapKey → List CapEvent
  rows : List CapReservationRow
  past : List PastReservation
  booked : List Appended
  clients : Fin n → CapClient

inductive CapAct (n : ℕ) where
  | tick (ms : ℕ)
  | beginOwn (k : Fin n) (tenantId : String) (op : CapOp)
  | beginHandler (k : Fin n) (tenantId : String)
  | call (k : Fin n) (op : CapOp)
  | run (k : Fin n)
  | commit (k : Fin n)
  | abort (k : Fin n)
  | sweepTombstone (id : String)

/-- The events staged on a stream. -/
def stagedOn (key : CapKey) (staged : List Appended) : List CapEvent :=
  (staged.filter (·.booking.key = key)).map (·.event)

namespace Caps

variable {n : ℕ}

def initial : Caps n := ⟨0, fun _ => [], [], [], [], fun _ => .closed⟩

def setClient (s : Caps n) (k : Fin n) (cl : CapClient) : Caps n :=
  { s with clients := Function.update s.clients k cl }

/-- The events of a stream that a statement of the client sees. -/
def view (s : Caps n) (k : Fin n) (key : CapKey) : List CapEvent :=
  s.streams key ++ stagedOn key (s.clients k).staged

/-- The row of a reservation of the tenant that is not settled. -/
def unsettledRow (s : Caps n) (tenantId id : String) : Option CapReservationRow :=
  (KeyedRows.lookup (·.id) id s.rows).filter fun r => r.key.tenantId = tenantId ∧ r.settled = false

/-- Reference: `hasSettledTombstone`. -/
def settledRow (s : Caps n) (tenantId id : String) : Option CapReservationRow :=
  (KeyedRows.lookup (·.id) id s.rows).filter fun r => r.key.tenantId = tenantId ∧ r.settled = true

/-- Another client has claimed the row, or inserts it. -/
def LockedElsewhere (s : Caps n) (k : Fin n) (id : String) : Prop := ∃ j, j ≠ k ∧ id ∈ (s.clients j).locked

instance (s : Caps n) (k : Fin n) (id : String) : Decidable (s.LockedElsewhere k id) :=
  inferInstanceAs (Decidable (∃ j, j ≠ k ∧ _))

/-- Another client has staged an event on the stream. -/
def BookedElsewhere (s : Caps n) (k : Fin n) (key : CapKey) : Prop :=
  ∃ j, j ≠ k ∧ stagedOn key (s.clients j).staged ≠ []

instance (s : Caps n) (k : Fin n) (key : CapKey) : Decidable (s.BookedElsewhere k key) :=
  inferInstanceAs (Decidable (∃ j, j ≠ k ∧ _))

def goto (s : Caps n) (k : Fin n) (phase : CapPhase) : Caps n := s.setClient k { s.clients k with phase }

def giveUp (s : Caps n) (k : Fin n) : Caps n := s.setClient k (s.clients k).givenUp

/-- Goes on where a command goes on, and gives up where it throws. -/
def proceed (s : Caps n) (k : Fin n) : Option CapPhase → Caps n
  | some phase => s.goto k phase
  | none => s.giveUp k

def finish (s : Caps n) (k : Fin n) (writes : List RowWrite) (locked : List String) : Caps n :=
  s.setClient k ((s.clients k).finished writes locked)

/-! ## Statements -/

/-- The update that takes the row lock. Reference: `claimReservationRow`. -/
def runClaim (s : Caps n) (k : Fin n) (op : CapOp) : Option (Caps n) :=
  let cl := s.clients k
  match s.unsettledRow cl.tenantId op.id with
  | none => some (s.goto k op.withoutClaim)
  | some row =>
    if s.LockedElsewhere k op.id then none
    else some (match op.afterClaim cl.tenantId row with
      | some phase => s.setClient k { cl with locked := op.id :: cl.locked, phase }
      | none => s.giveUp k)

/-- Reference: `confirmCapReservation`. -/
def runConfirm (s : Caps n) (k : Fin n) (id : String) : Option (Caps n) :=
  let cl := s.clients k
  if id ∈ cl.locked then some (s.finish k [] [])
  else match (s.unsettledRow cl.tenantId id).filter (!·.released) with
    | none => some (s.finish k [] [])
    | some _ => if s.LockedElsewhere k id then none else some (s.finish k [.confirm id] [id])

/-- Reads a calendar counter and judges it. Reference: `applyCapDeltaOn` and `attemptMark`. -/
def readCounter (s : Caps n) (k : Fin n) (b : CapBooking) : Caps n :=
  let es := s.view k b.key
  if es = [] ∧ b.direction = .touch then s.giveUp k
  else if b.Rejected (capValue es) then s.giveUp k
  else if es = [] ∧ b.direction = .subtract then s.goto k (.write b.next)
  else s.goto k (.append b (capValue es) es.length s.now)

/-- Reads the released amounts and judges the usage. Reference: `readRollingCapUsage` and `reserveRollingCap`. -/
def judgeUsage (s : Caps n) (k : Fin n) (b : CapBooking) (window version incremented : ℕ) : Caps n :=
  let usage := incremented - sumReleased window s.now (s.view k b.key)
  if b.Rejected usage then s.giveUp k else s.goto k (.append b usage version s.now)

/-- The versioned append of a booking's event. -/
def runAppend (s : Caps n) (k : Fin n) (b : CapBooking) (value : ℤ) (version : ℕ) : Option (Caps n) :=
  let cl := s.clients k
  let es := s.view k b.key
  if es.length ≠ version then some (s.giveUp k)
  else if s.BookedElsewhere k b.key then none
  else some (s.setClient k { cl with
    staged := cl.staged ++ [⟨b, b.usage s.now es, b.event value cl.startedAt⟩], phase := .write b.next })

/-- The write that goes with a booking. -/
def runWrite (s : Caps n) (k : Fin n) : Option RowWrite → Option (Caps n)
  | some (.insert row) =>
    if s.LockedElsewhere k row.id then none
    else if ∃ r ∈ s.rows, r.id = row.id then some (s.giveUp k)
    else some (s.finish k [(RowWrite.insert row).stamped s.now] [row.id])
  | w => some (s.finish k w.toList [])

/-- The next statement of a command. -/
def runCommand (s : Caps n) (k : Fin n) : Option (Caps n) :=
  let cl := s.clients k
  match cl.phase with
  | .idle | .done => none
  | .fetch op =>
    some (match s.unsettledRow cl.tenantId op.id with
      | some row => if op.namesCapOf row then s.goto k (.claim op) else s.giveUp k
      | none => s.goto k op.withoutClaim)
  | .claim op => s.runClaim k op
  | .tombstone op =>
    some (s.proceed k (match s.settledRow cl.tenantId op.id with
      | some _ => op.afterSettled
      | none => op.withoutRow cl.tenantId))
  | .confirm id => s.runConfirm k id
  | .readCounter b => some (s.readCounter k b)
  | .readVersion b =>
    let version := (s.view k b.key).length
    some (s.goto k (if b.window.isSome then .sumIncremented b version else .append b 0 version s.now))
  | .sumIncremented b version =>
    some (s.goto k (.sumReleased b version (sumIncremented (b.window.getD 0) s.now (s.view k b.key))))
  | .sumReleased b version incremented => some (s.judgeUsage k b (b.window.getD 0) version incremented)
  | .append b value version _ => s.runAppend k b value version
  | .write w => s.runWrite k w

def commit (s : Caps n) (k : Fin n) : Caps n :=
  let cl := s.clients k
  { s with
    streams := s.view k
    rows := cl.writes.foldl RowWrite.apply s.rows
    past := s.past ++ cl.writes.flatMap (RowWrite.past s.rows)
    booked := s.booked ++ cl.staged
    clients := Function.update s.clients k .closed }

/-- Reference: `releaseExpiredCapReservations`, which releases the open ones of the expired rows and deletes
these. -/
def sweepTombstone (s : Caps n) (id : String) : Option (Caps n) :=
  match KeyedRows.lookup (·.id) id s.rows with
  | none => none
  | some row =>
    if (row.settled ∨ row.released) ∧ ∀ k, id ∉ (s.clients k).locked then
      some { s with rows := KeyedRows.delete (·.id) id s.rows, past := s.past ++ [row.past] }
    else none

def step (s : Caps n) : CapAct n → Option (Caps n)
  | .tick ms => some { s with now := s.now + ms }
  | .beginOwn k tenantId op =>
    if (s.clients k).inTx = false ∧ op.accepted ∧ op.runsOwn then
      some (s.setClient k ⟨true, some op, tenantId, s.now, [], [], [], op.start tenantId⟩)
    else none
  | .beginHandler k tenantId =>
    if (s.clients k).inTx = false then some (s.setClient k ⟨true, none, tenantId, s.now, [], [], [], .idle⟩)
    else none
  | .call k op =>
    if (s.clients k).inTx = true ∧ (s.clients k).own = none ∧ (s.clients k).phase = .idle ∧ op.accepted
        ∧ op.runsInHandler then
      some (s.goto k (op.start (s.clients k).tenantId))
    else none
  | .run k => s.runCommand k
  | .commit k => if (s.clients k).CanCommit then some (s.commit k) else none
  | .abort k => if (s.clients k).inTx then some (s.setClient k .closed) else none
  | .sweepTombstone id => s.sweepTombstone id

/-! ## Cases of a step -/

/-- What the next statement of a command does to its client. -/
inductive RunStep (s : Caps n) (k : Fin n) : CapClient → Prop
  | givenUp : RunStep s k (s.clients k).givenUp
  | fetched {op : CapOp} : (s.clients k).phase = .fetch op → RunStep s k { s.clients k with phase := .claim op }
  | unclaimed {op : CapOp} : (s.clients k).phase = .fetch op ∨ (s.clients k).phase = .claim op →
      RunStep s k { s.clients k with phase := op.withoutClaim }
  | claimed {op : CapOp} {row : CapReservationRow} {phase : CapPhase} : (s.clients k).phase = .claim op →
      s.unsettledRow (s.clients k).tenantId op.id = some row → ¬ s.LockedElsewhere k op.id →
      op.afterClaim (s.clients k).tenantId row = some phase →
      RunStep s k { s.clients k with locked := op.id :: (s.clients k).locked, phase }
  | settled {op : CapOp} {phase : CapPhase} : (s.clients k).phase = .tombstone op → op.afterSettled = some phase →
      RunStep s k { s.clients k with phase }
  | rowless {op : CapOp} {phase : CapPhase} : (s.clients k).phase = .tombstone op →
      op.withoutRow (s.clients k).tenantId = some phase → RunStep s k { s.clients k with phase }
  | confirmed {id : String} {row : CapReservationRow} : (s.clients k).phase = .confirm id →
      id ∉ (s.clients k).locked → s.unsettledRow (s.clients k).tenantId id = some row → row.released = false →
      ¬ s.LockedElsewhere k id → RunStep s k ((s.clients k).finished [.confirm id] [id])
  | unconfirmed {id : String} : (s.clients k).phase = .confirm id → RunStep s k ((s.clients k).finished [] [])
  | counterless {b : CapBooking} : (s.clients k).phase = .readCounter b → s.view k b.key = [] →
      b.direction = .subtract → RunStep s k { s.clients k with phase := .write b.next }
  | counted {b : CapBooking} : (s.clients k).phase = .readCounter b → ¬ b.Rejected (capValue (s.view k b.key)) →
      RunStep s k { s.clients k with
        phase := .append b (capValue (s.view k b.key)) (s.view k b.key).length s.now }
  | windowed {b : CapBooking} : (s.clients k).phase = .readVersion b → b.window.isSome →
      RunStep s k { s.clients k with phase := .sumIncremented b (s.view k b.key).length }
  | unwindowed {b : CapBooking} : (s.clients k).phase = .readVersion b → b.window = none →
      RunStep s k { s.clients k with phase := .append b 0 (s.view k b.key).length s.now }
  | summed {b : CapBooking} {version : ℕ} : (s.clients k).phase = .sumIncremented b version →
      RunStep s k { s.clients k with
        phase := .sumReleased b version (sumIncremented (b.window.getD 0) s.now (s.view k b.key)) }
  | judged {b : CapBooking} {version incremented : ℕ} {usage : ℕ} :
      (s.clients k).phase = .sumReleased b version incremented →
      usage = incremented - sumReleased (b.window.getD 0) s.now (s.view k b.key) → ¬ b.Rejected usage →
      RunStep s k { s.clients k with phase := .append b usage version s.now }
  | appended {b : CapBooking} {value : ℤ} {version readAt : ℕ} :
      (s.clients k).phase = .append b value version readAt → (s.view k b.key).length = version →
      ¬ s.BookedElsewhere k b.key →
      RunStep s k { s.clients k with
        staged := (s.clients k).staged ++
          [⟨b, b.usage s.now (s.view k b.key), b.event value (s.clients k).startedAt⟩]
        phase := .write b.next }
  | inserted {row : CapReservationRow} : (s.clients k).phase = .write (some (.insert row)) →
      ¬ s.LockedElsewhere k row.id → (∀ r ∈ s.rows, r.id ≠ row.id) →
      RunStep s k ((s.clients k).finished [(RowWrite.insert row).stamped s.now] [row.id])
  | written {w : Option RowWrite} : (s.clients k).phase = .write w → (∀ row, w ≠ some (.insert row)) →
      RunStep s k ((s.clients k).finished w.toList [])

variable {s s' : Caps n} {k : Fin n} {a : CapAct n}

theorem exists_runStep_claim {op : CapOp} (hp : (s.clients k).phase = .claim op) (h : s.runClaim k op = some s') :
    ∃ cl, s' = s.setClient k cl ∧ s.RunStep k cl := by
  simp only [runClaim] at h
  split at h
  · cases h
    exact ⟨_, rfl, .unclaimed (.inr hp)⟩
  · next hrow =>
    split at h
    · cases h
    · next hfree =>
      cases h
      split
      · next hphase => exact ⟨_, rfl, .claimed hp hrow hfree hphase⟩
      · exact ⟨_, rfl, .givenUp⟩

theorem exists_runStep_confirm {id : String} (hp : (s.clients k).phase = .confirm id)
    (h : s.runConfirm k id = some s') : ∃ cl, s' = s.setClient k cl ∧ s.RunStep k cl := by
  simp only [runConfirm] at h
  split at h
  · cases h
    exact ⟨_, rfl, .unconfirmed hp⟩
  · next hown =>
    split at h
    · cases h
      exact ⟨_, rfl, .unconfirmed hp⟩
    · next row hrow =>
      obtain ⟨hrow, hreleased⟩ := Option.filter_eq_some_iff.1 hrow
      split at h
      · cases h
      · next hfree =>
        cases h
        exact ⟨_, rfl, .confirmed hp hown hrow (by simpa using hreleased) hfree⟩

theorem exists_runStep_readCounter {b : CapBooking} (hp : (s.clients k).phase = .readCounter b) :
    ∃ cl, s.readCounter k b = s.setClient k cl ∧ s.RunStep k cl := by
  simp only [readCounter]
  split
  · exact ⟨_, rfl, .givenUp⟩
  · split
    · exact ⟨_, rfl, .givenUp⟩
    · next hjudged =>
      split
      · next h => exact ⟨_, rfl, .counterless hp h.1 h.2⟩
      · exact ⟨_, rfl, .counted hp hjudged⟩

theorem exists_runStep_judgeUsage {b : CapBooking} {version incremented : ℕ}
    (hp : (s.clients k).phase = .sumReleased b version incremented) :
    ∃ cl, s.judgeUsage k b (b.window.getD 0) version incremented = s.setClient k cl ∧ s.RunStep k cl := by
  simp only [judgeUsage]
  split
  · exact ⟨_, rfl, .givenUp⟩
  · next hjudged => exact ⟨_, rfl, .judged hp rfl hjudged⟩

theorem exists_runStep_append {b : CapBooking} {value : ℤ} {version readAt : ℕ}
    (hp : (s.clients k).phase = .append b value version readAt) (h : s.runAppend k b value version = some s') :
    ∃ cl, s' = s.setClient k cl ∧ s.RunStep k cl := by
  simp only [runAppend] at h
  split at h
  · cases h
    exact ⟨_, rfl, .givenUp⟩
  · next hversion =>
    split at h
    · cases h
    · next hfree =>
      cases h
      exact ⟨_, rfl, .appended hp (not_not.1 hversion) hfree⟩

theorem exists_runStep_write {w : Option RowWrite} (hp : (s.clients k).phase = .write w)
    (h : s.runWrite k w = some s') : ∃ cl, s' = s.setClient k cl ∧ s.RunStep k cl := by
  unfold runWrite at h
  split at h
  · split at h
    · cases h
    · next hfree =>
      split at h
      · cases h
        exact ⟨_, rfl, .givenUp⟩
      · next hnew =>
        cases h
        exact ⟨_, rfl, .inserted hp hfree fun r hr hid => hnew ⟨r, hr, hid⟩⟩
  · next hw =>
    cases h
    exact ⟨_, rfl, .written hp fun row => hw row⟩

/-- A statement changes its own client only. -/
theorem exists_runStep (h : s.runCommand k = some s') : ∃ cl, s' = s.setClient k cl ∧ s.RunStep k cl := by
  simp only [runCommand] at h
  split at h
  · cases h
  · cases h
  · next hp =>
    cases h
    split
    · split
      · exact ⟨_, rfl, .fetched hp⟩
      · exact ⟨_, rfl, .givenUp⟩
    · exact ⟨_, rfl, .unclaimed (.inl hp)⟩
  · next hp => exact exists_runStep_claim hp h
  · next op hp =>
    cases h
    split
    · cases hphase : op.afterSettled with
      | none => exact ⟨_, rfl, .givenUp⟩
      | some phase => exact ⟨_, rfl, .settled hp hphase⟩
    · cases hphase : op.withoutRow (s.clients k).tenantId with
      | none => exact ⟨_, rfl, .givenUp⟩
      | some phase => exact ⟨_, rfl, .rowless hp hphase⟩
  · next hp => exact exists_runStep_confirm hp h
  · next hp =>
    cases h
    exact exists_runStep_readCounter hp
  · next b hp =>
    cases h
    cases hw : b.window.isSome with
    | true => exact ⟨_, rfl, .windowed hp hw⟩
    | false => exact ⟨_, rfl, .unwindowed hp (Option.isSome_eq_false_iff.1 hw |> Option.isNone_iff_eq_none.1)⟩
  · next hp =>
    cases h
    exact ⟨_, rfl, .summed hp⟩
  · next hp =>
    cases h
    exact exists_runStep_judgeUsage hp
  · next hp => exact exists_runStep_append hp h
  · next hp => exact exists_runStep_write hp h

/-- What a step does. -/
inductive CapsStep (s : Caps n) : CapAct n → Caps n → Prop
  | tick {ms : ℕ} : CapsStep s (.tick ms) { s with now := s.now + ms }
  | beginOwn {k : Fin n} {tenantId : String} {op : CapOp} : op.accepted = true → op.runsOwn = true →
      CapsStep s (.beginOwn k tenantId op)
        (s.setClient k ⟨true, some op, tenantId, s.now, [], [], [], op.start tenantId⟩)
  | beginHandler {k : Fin n} {tenantId : String} :
      CapsStep s (.beginHandler k tenantId) (s.setClient k ⟨true, none, tenantId, s.now, [], [], [], .idle⟩)
  | call {k : Fin n} {op : CapOp} : (s.clients k).own = none → op.runsInHandler = true →
      CapsStep s (.call k op) (s.setClient k { s.clients k with phase := op.start (s.clients k).tenantId })
  | run {k : Fin n} {cl : CapClient} : s.RunStep k cl → CapsStep s (.run k) (s.setClient k cl)
  | commit {k : Fin n} : (s.clients k).CanCommit → CapsStep s (.commit k) (s.commit k)
  | abort {k : Fin n} : CapsStep s (.abort k) (s.setClient k .closed)
  | sweepTombstone {row : CapReservationRow} : KeyedRows.lookup (·.id) row.id s.rows = some row →
      row.settled = true ∨ row.released = true → (∀ k, row.id ∉ (s.clients k).locked) →
      CapsStep s (.sweepTombstone row.id)
        { s with rows := KeyedRows.delete (·.id) row.id s.rows, past := s.past ++ [row.past] }

theorem CapsStep.of_step (h : s.step a = some s') : s.CapsStep a s' := by
  cases a with
  | tick ms => cases h; exact .tick
  | run k =>
    obtain ⟨cl, rfl, hrun⟩ := exists_runStep h
    exact .run hrun
  | beginOwn k tenantId op =>
    simp only [step] at h
    split at h
    · next hc => cases h; exact .beginOwn hc.2.1 hc.2.2
    · cases h
  | beginHandler k tenantId =>
    simp only [step] at h
    split at h
    · cases h; exact .beginHandler
    · cases h
  | call k op =>
    simp only [step] at h
    split at h
    · next hc => cases h; exact .call hc.2.1 hc.2.2.2.2
    · cases h
  | commit k =>
    simp only [step] at h
    split at h
    · next hc => cases h; exact .commit hc
    · cases h
  | abort k =>
    simp only [step] at h
    split at h
    · cases h; exact .abort
    · cases h
  | sweepTombstone id =>
    simp only [step, Caps.sweepTombstone] at h
    split at h
    · cases h
    · next row hrow =>
      split at h
      · next hc =>
        cases h
        have hid : row.id = id := KeyedRows.key_of_lookup hrow
        subst hid
        exact .sweepTombstone hrow hc.1 hc.2
      · cases h

@[simp] theorem setClient_self (s : Caps n) (k : Fin n) (cl : CapClient) : (s.setClient k cl).clients k = cl :=
  Function.update_self ..

@[simp] theorem setClient_of_ne {j k : Fin n} (h : j ≠ k) (s : Caps n) (cl : CapClient) :
    (s.setClient k cl).clients j = s.clients j :=
  Function.update_of_ne h ..

/-- A stream that still has the version it once had has not grown. -/
theorem eq_of_version {es es' new : List CapEvent} {version : ℕ} (hle : version ≤ es.length) (hnew : es' = es ++ new)
    (h : es'.length = version) : es' = es := by
  subst hnew
  rw [List.length_append] at h
  rw [List.eq_nil_of_length_eq_zero (l := new) (by omega), List.append_nil]

/-! ## Locks -/

/-- No row is locked by two clients, and on no stream have two clients staged events. -/
structure Exclusive (s : Caps n) : Prop where
  locked : ∀ {j k id}, id ∈ (s.clients j).locked → id ∈ (s.clients k).locked → j = k
  staged : ∀ {j k key}, stagedOn key (s.clients j).staged ≠ [] → stagedOn key (s.clients k).staged ≠ [] → j = k

theorem exclusive_initial : Exclusive (initial : Caps n) where
  locked := fun hj => (nomatch hj)
  staged := fun hj => absurd rfl hj

/-- What the client has now and had not before, no other client has. -/
theorem Exclusive.setClient (h : Exclusive s) {cl : CapClient}
    (hlocked : ∀ id ∈ cl.locked, id ∈ (s.clients k).locked ∨ ¬ s.LockedElsewhere k id)
    (hstaged : ∀ key, stagedOn key cl.staged ≠ [] →
      stagedOn key (s.clients k).staged ≠ [] ∨ ¬ s.BookedElsewhere k key) : Exclusive (s.setClient k cl) where
  locked {i j id} hi hj := by
    by_cases hik : i = k <;> by_cases hjk : j = k
    · rw [hik, hjk]
    · rw [hik, setClient_self] at hi
      rw [setClient_of_ne hjk] at hj
      exact (hlocked id hi).elim (fun hold => hik.trans (h.locked hold hj)) fun hfree => absurd ⟨j, hjk, hj⟩ hfree
    · rw [hjk, setClient_self] at hj
      rw [setClient_of_ne hik] at hi
      exact (hlocked id hj).elim (fun hold => (h.locked hi hold).trans hjk.symm)
        fun hfree => absurd ⟨i, hik, hi⟩ hfree
    · rw [setClient_of_ne hik] at hi
      rw [setClient_of_ne hjk] at hj
      exact h.locked hi hj
  staged {i j key} hi hj := by
    by_cases hik : i = k <;> by_cases hjk : j = k
    · rw [hik, hjk]
    · rw [hik, setClient_self] at hi
      rw [setClient_of_ne hjk] at hj
      exact (hstaged key hi).elim (fun hold => hik.trans (h.staged hold hj)) fun hfree => absurd ⟨j, hjk, hj⟩ hfree
    · rw [hjk, setClient_self] at hj
      rw [setClient_of_ne hik] at hi
      exact (hstaged key hj).elim (fun hold => (h.staged hi hold).trans hjk.symm)
        fun hfree => absurd ⟨i, hik, hi⟩ hfree
    · rw [setClient_of_ne hik] at hi
      rw [setClient_of_ne hjk] at hj
      exact h.staged hi hj

/-- A client that locks and stages nothing more. -/
theorem Exclusive.less (h : Exclusive s) {cl : CapClient} (hlocked : ∀ id ∈ cl.locked, id ∈ (s.clients k).locked)
    (hstaged : cl.staged = [] ∨ cl.staged = (s.clients k).staged) : Exclusive (s.setClient k cl) :=
  h.setClient (fun id hid => .inl (hlocked id hid)) fun key hkey => by
    obtain hnil | hsame := hstaged
    · rw [hnil] at hkey
      exact absurd rfl hkey
    · rw [hsame] at hkey
      exact .inl hkey

theorem Exclusive.runStep (h : Exclusive s) {cl : CapClient} (hrun : s.RunStep k cl) :
    Exclusive (s.setClient k cl) := by
  cases hrun with
  | givenUp =>
    unfold CapClient.givenUp
    split
    · exact h.less (fun _ hid => (nomatch hid)) (.inl rfl)
    · exact h.less (fun _ hid => hid) (.inr rfl)
  | claimed _ _ hfree _ =>
    refine h.setClient (fun id hid => ?_) fun key hkey => .inl hkey
    obtain rfl | hid := List.mem_cons.1 hid
    · exact .inr hfree
    · exact .inl hid
  | confirmed _ _ _ _ hfree =>
    refine h.setClient (fun id hid => ?_) fun key hkey => .inl hkey
    obtain rfl | hid := List.mem_cons.1 hid
    · exact .inr hfree
    · exact .inl hid
  | inserted _ hfree _ =>
    refine h.setClient (fun id hid => ?_) fun key hkey => .inl hkey
    obtain rfl | hid := List.mem_cons.1 hid
    · exact .inr hfree
    · exact .inl hid
  | @appended b value version readAt _ _ hfree =>
    refine h.setClient (fun id hid => .inl hid) fun key hkey => ?_
    by_cases hb : b.key = key
    · exact .inr (hb ▸ hfree)
    · refine .inl ?_
      rw [stagedOn, List.filter_append, List.filter_cons_of_neg (by simpa using hb), List.filter_nil,
        List.append_nil] at hkey
      exact hkey
  | _ => exact h.less (fun _ hid => hid) (.inr rfl)

theorem Exclusive.step (h : Exclusive s) (hs : s.step a = some s') : Exclusive s' := by
  cases CapsStep.of_step hs with
  | tick => exact ⟨h.locked, h.staged⟩
  | sweepTombstone _ _ _ => exact ⟨h.locked, h.staged⟩
  | beginOwn _ _ => exact h.less (fun _ hid => (nomatch hid)) (.inl rfl)
  | beginHandler => exact h.less (fun _ hid => (nomatch hid)) (.inl rfl)
  | call _ _ => exact h.less (fun _ hid => hid) (.inr rfl)
  | run hrun => exact h.runStep hrun
  | abort => exact h.less (fun _ hid => (nomatch hid)) (.inl rfl)
  | @commit k _ =>
    have hclosed : Exclusive (s.setClient k .closed) := h.less (fun _ hid => (nomatch hid)) (.inl rfl)
    exact ⟨hclosed.locked, hclosed.staged⟩

/-- The actions of a command that takes so many statements and commits. -/
def ownRun (k : Fin n) (op : CapOp) (statements : ℕ) : List (CapAct n) :=
  .beginOwn k "t" op :: (List.replicate statements (.run k) ++ [.commit k])

end Caps

end Kumiko
