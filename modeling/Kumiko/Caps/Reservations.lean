import Mathlib.Algebra.Order.Ring.Rat
import Mathlib.Data.Fintype.Basic
import Kumiko.Library.Run
import Kumiko.Library.KeyedRows

/-!
# Usage caps and their reservations

`cap-counter/cap-reservation.ts` and `book-cap-usage.ts`, statement by statement. What a cap has counted is a
stream of events: a calendar cap's carry the new value, a rolling cap's an amount that counts for some days.
`reserve`, `release`, `settle` and `consume` run in a transaction of their own, `confirm` in that of the
handler.

A command that fails leaves nothing behind. When a row expires is left open. Times are in milliseconds; the
database stamps an event with the start of its transaction.
-/

namespace Kumiko

/-! ## Caps and their events -/

/-- The stream of a cap. Reference: `capCounterAggregateId` and `rollingCapAggregateId`. -/
inductive CapKey where
  | calendar (tenantId capName periodStartIso : String)
  | rolling (tenantId capName : String)
  deriving DecidableEq

def CapKey.tenantId : CapKey → String
  | .calendar tenantId _ _ => tenantId
  | .rolling tenantId _ => tenantId

def CapKey.capName : CapKey → String
  | .calendar _ capName _ => capName
  | .rolling _ capName => capName

/-- The new value of a calendar counter, or the payload of a rolling event. -/
inductive CapEvent where
  | counted (value : ℤ)
  | incremented (amount createdAt : ℕ)
  | released (amount createdAt : ℕ) (incrementedAt : Option ℕ)

namespace CapEvent

/-- What is counted after the event. -/
def apply (value : ℤ) : CapEvent → ℤ
  | .counted newValue => newValue
  | .incremented amount _ => value + amount
  | .released amount _ _ => value - amount

def incrementIn (window now : ℕ) : CapEvent → ℕ
  | .incremented amount createdAt => if now ≤ createdAt + window then amount else 0
  | _ => 0

/-- A release counts while it and the increment it names are inside the window. -/
def releaseIn (window now : ℕ) : CapEvent → ℕ
  | .released amount createdAt incrementedAt =>
    if now ≤ createdAt + window ∧ ∀ t ∈ incrementedAt, now ≤ t + window then amount else 0
  | _ => 0

end CapEvent

/-- What a cap has counted. -/
def capValue (es : List CapEvent) : ℤ := es.foldl CapEvent.apply 0

def sumIncremented (window now : ℕ) (es : List CapEvent) : ℕ := (es.map (·.incrementIn window now)).sum

def sumReleased (window now : ℕ) (es : List CapEvent) : ℕ := (es.map (·.releaseIn window now)).sum

def windowOf (windowDays : ℕ) : ℕ := windowDays * (24 * 60 * 60 * 1000)

/-- Reference: `readRollingCapUsage`. -/
def rollingUsage (window now : ℕ) (es : List CapEvent) : ℕ :=
  sumIncremented window now es - sumReleased window now es

/-- The limit and the hard factor of a guarded reservation. -/
structure HardCap where
  limit : ℚ
  hard : ℚ
  deriving DecidableEq

/-- Reference: `assertBelowHardCap`. -/
def HardCap.Exceeded (cap : HardCap) (valueSeenByLastUnit : ℤ) : Prop := cap.limit * cap.hard ≤ valueSeenByLastUnit

instance (cap : HardCap) (value : ℤ) : Decidable (cap.Exceeded value) := inferInstanceAs (Decidable (_ ≤ _))

/-! ## Reservations -/

/-- A row of `store_cap_reservations`. Of `settledAt` and `releasedAt` only whether they are set is kept; the
amount a settle was told is in no column. -/
structure CapReservationRow where
  id : String
  key : CapKey
  amount : ℕ
  consumedAmount : ℕ
  createdAt : ℕ
  settled : Bool
  released : Bool
  settledAmount : ℕ
  deriving DecidableEq

/-- What is counted for a row: the amount settled, what has been consumed of a released one, or what is
reserved and consumed. -/
def CapReservationRow.counted (r : CapReservationRow) : ℕ :=
  if r.settled then r.settledAmount
  else if r.released then r.consumedAmount
  else r.amount + r.consumedAmount

/-- A reservation whose row is gone while it is still counted. -/
structure PastReservation where
  id : String
  key : CapKey
  amount : ℕ

def CapReservationRow.past (r : CapReservationRow) : PastReservation := ⟨r.id, r.key, r.counted⟩

inductive RowWrite where
  | insert (row : CapReservationRow)
  | put (row : CapReservationRow)
  | delete (id : String)
  | confirm (id : String)
  deriving DecidableEq

namespace RowWrite

def id : RowWrite → String
  | .insert row => row.id
  | .put row => row.id
  | .delete id => id
  | .confirm id => id

def apply (rows : List CapReservationRow) : RowWrite → List CapReservationRow
  | .insert row => rows ++ [row]
  | .put row => KeyedRows.put (·.id) row rows
  | .delete id => KeyedRows.delete (·.id) id rows
  | .confirm id => KeyedRows.delete (·.id) id rows

/-- What a confirmed row leaves behind. -/
def past (rows : List CapReservationRow) : RowWrite → List PastReservation
  | .confirm id => (KeyedRows.lookup (·.id) id rows).toList.map (·.past)
  | _ => []

/-- A row is created at the time of its insert. -/
def stamped (now : ℕ) : RowWrite → RowWrite
  | .insert row => .insert { row with createdAt := now }
  | w => w

end RowWrite

/-! ## Commands -/

inductive CapDirection where
  | add | subtract | touch
  deriving DecidableEq

/-- A booking on a cap, and the write that goes with it. -/
structure CapBooking where
  key : CapKey
  amount : ℕ
  direction : CapDirection
  guard : Option HardCap
  window : Option ℕ
  incrementedAt : Option ℕ
  next : Option RowWrite
  deriving DecidableEq

inductive CapOp where
  | reserveCalendar (id capName periodStartIso : String) (amount : ℕ) (guard : Option HardCap)
  | reserveRolling (id capName : String) (windowDays amount : ℕ) (guard : Option HardCap)
  | release (id : String)
  | settle (id capName periodStartIso : String) (actualAmount : ℕ)
  | consume (id capName periodStartIso : String) (units : ℕ)
  | confirm (id : String)
  | book (capName periodStartIso : String) (amount : ℕ) (direction : CapDirection) (guard : Option HardCap)
  | incrementRolling (capName : String) (amount : ℕ)
  deriving DecidableEq

namespace CapOp

/-- The checks made before the first statement. -/
def accepted : CapOp → Bool
  | .reserveCalendar _ _ _ amount _ => 0 < amount
  | .consume _ _ _ units => 0 < units
  | .book _ _ amount direction _ => direction = .touch ∨ 0 < amount
  | .incrementRolling _ amount => 0 < amount
  | _ => true

/-- The commands that run in a transaction of their own, and those that run in the handler's. -/
def runsOwn : CapOp → Bool
  | .confirm _ | .incrementRolling .. => false
  | _ => true

def runsInHandler : CapOp → Bool
  | .confirm _ | .book .. | .incrementRolling .. => true
  | _ => false

end CapOp

inductive CapPhase where
  | idle
  | done
  | fetch (op : CapOp)
  | claim (op : CapOp)
  | tombstone (op : CapOp)
  | confirm (id : String)
  | readCounter (b : CapBooking)
  | readVersion (b : CapBooking)
  | sumIncremented (b : CapBooking) (version : ℕ)
  | sumReleased (b : CapBooking) (version incremented : ℕ)
  | append (b : CapBooking) (value : ℤ) (version readAt : ℕ)
  | write (w : Option RowWrite)
  deriving DecidableEq

/-- Books the difference, if there is one. Reference: `bookCalendarDelta`. -/
def bookCalendarDelta (key : CapKey) (delta : ℤ) (next : RowWrite) : CapPhase :=
  if delta = 0 then .write (some next)
  else .readCounter
    { key, amount := delta.natAbs, direction := if 0 < delta then .add else .subtract, guard := none
      window := none, incrementedAt := none, next := some next }

/-- For a row that is claimed and not released. Reference: `giveBackReservation`. -/
def giveBackReservation (claimed : CapReservationRow) : CapPhase :=
  let booking (next : RowWrite) : CapBooking :=
    { key := claimed.key, amount := claimed.amount, direction := .subtract, guard := none, window := none
      incrementedAt := some claimed.createdAt, next := some next }
  match claimed.key with
  | .rolling .. => .readVersion (booking (.delete claimed.id))
  | .calendar .. =>
    -- only consumed units need remembering
    let next := if claimed.consumedAmount = 0 then RowWrite.delete claimed.id
      else .put { claimed with amount := 0, released := true }
    if claimed.amount = 0 then .write (some next) else .readCounter (booking next)

namespace CapOp

/-- What comes after the claim of an unsettled row; nothing where the command throws.
Reference: `giveBackReservation`, `settleInTransaction` and `consumeClaimedRow`. -/
def afterClaim (tenantId : String) (claimed : CapReservationRow) : CapOp → Option CapPhase
  | .release _ => some (if claimed.released then .done else giveBackReservation claimed)
  | .settle _ capName periodStartIso actualAmount =>
    if actualAmount < claimed.consumedAmount then none
    else some (bookCalendarDelta (.calendar tenantId capName periodStartIso)
      (actualAmount - (claimed.amount + claimed.consumedAmount))
      (.put { claimed with settled := true, settledAmount := actualAmount }))
  | .consume _ capName periodStartIso units =>
    if claimed.released then
      some (bookCalendarDelta (.calendar tenantId capName periodStartIso) units
        (.put { claimed with consumedAmount := claimed.consumedAmount + units }))
    else if claimed.amount < units then none
    else some (.write (some (.put
      { claimed with amount := claimed.amount - units, consumedAmount := claimed.consumedAmount + units })))
  | _ => none

/-- What comes where no unsettled row is found. -/
def withoutClaim : CapOp → CapPhase
  | .release _ => .done
  | op => .tombstone op

/-- What comes where a settled row is found; nothing where the command throws. -/
def afterSettled : CapOp → Option CapPhase
  | .consume .. => none
  | _ => some .done

/-- What comes where there is no row. Reference: `settleInTransaction` and `consumeWithoutRow`. -/
def withoutRow (tenantId : String) : CapOp → Option CapPhase
  | .settle id capName periodStartIso actualAmount =>
    let key := CapKey.calendar tenantId capName periodStartIso
    some (bookCalendarDelta key actualAmount (.insert
      { id, key, amount := actualAmount, consumedAmount := 0, createdAt := 0, settled := true, released := false
        settledAmount := actualAmount }))
  | .consume id capName periodStartIso units =>
    let key := CapKey.calendar tenantId capName periodStartIso
    some (bookCalendarDelta key units (.insert
      { id, key, amount := 0, consumedAmount := units, createdAt := 0, settled := false, released := true
        settledAmount := 0 }))
  | _ => none

end CapOp

/-- Reference: `insertReservationRow`. -/
def reservationRow (id : String) (key : CapKey) (amount : ℕ) : CapReservationRow :=
  { id, key, amount, consumedAmount := 0, createdAt := 0, settled := false, released := false, settledAmount := 0 }

namespace CapOp

/-- The first statement of a command. -/
def start (tenantId : String) : CapOp → CapPhase
  | .reserveCalendar id capName periodStartIso amount guard =>
    let key := CapKey.calendar tenantId capName periodStartIso
    .readCounter
      { key, amount, direction := .add, guard, window := none, incrementedAt := none
        next := some (.insert (reservationRow id key amount)) }
  | .reserveRolling id capName windowDays amount guard =>
    let key := CapKey.rolling tenantId capName
    .readVersion
      { key, amount, direction := .add, guard, window := some (windowOf windowDays), incrementedAt := none
        next := some (.insert (reservationRow id key amount)) }
  | .book capName periodStartIso amount direction guard =>
    .readCounter
      { key := .calendar tenantId capName periodStartIso, amount, direction, guard, window := none
        incrementedAt := none, next := none }
  | .incrementRolling capName amount =>
    .readVersion
      { key := .rolling tenantId capName, amount, direction := .add, guard := none, window := none
        incrementedAt := none, next := none }
  | .confirm id => .confirm id
  | op => .fetch op

/-- The reservation that a command names. -/
def id : CapOp → String
  | .reserveCalendar id .. | .reserveRolling id .. | .release id | .settle id .. | .consume id .. | .confirm id => id
  | .book .. | .incrementRolling .. => ""

/-- The cap that a consume names is compared with that of the row it finds. -/
def namesCapOf (row : CapReservationRow) : CapOp → Bool
  | .consume _ capName _ _ => row.key.capName = capName
  | _ => true

end CapOp

end Kumiko
