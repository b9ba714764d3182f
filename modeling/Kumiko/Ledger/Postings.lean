import Mathlib.Data.List.Dedup
import Kumiko.Library.Binary64
import Kumiko.Library.UuidText

/-!
# Postings, journal entries and schedules

`ledger/schemas.ts` and `ledger/recurring.ts`: the payloads of the commands that book, the rows they write and
read, and how a schedule's periods are matched with what has been booked. In a lookup ids are compared as UUIDs
(`uuidIn`), in the `reference` of an entry and in a posting as text.
-/

namespace Kumiko

/-! ## Payloads -/

/-- The length of a string, in UTF-16 code units. -/
def utf16Length (s : String) : ℕ := (s.toList.map fun c => if c.toNat < 65536 then 1 else 2).sum

/-- Reference: `z.string().min(low).max(high)`. -/
def lengthWithin (low high : ℕ) (s : String) : Bool := low ≤ utf16Length s ∧ utf16Length s ≤ high

/-- Reference: `z.number().int()`. -/
def isSafeInteger (n : ℤ) : Bool := n.natAbs ≤ 2 ^ 53 - 1

/-- Digits where the shape has a `d`, and the shape's own characters elsewhere. -/
def hasShape (shape s : String) : Bool :=
  s.toList.length = shape.toList.length &&
    (shape.toList.zip s.toList).all fun (d, c) => if d = 'd' then c.isDigit else c = d

structure Posting where
  accountId : String
  amount : ℤ
  deriving DecidableEq

/-- Reference: `postingSchema`. -/
def postingSchema (l : Posting) : Bool := lengthWithin 1 64 l.accountId && isSafeInteger l.amount

/-- Reference: `sumIsZero`. -/
def sumIsZero (lines : List Posting) : Bool := Binary64.roundedSum (lines.map (·.amount)) = 0

/-- Reference: `touchesTwoAccounts`. -/
def touchesTwoAccounts (lines : List Posting) : Bool := 2 ≤ (lines.map (·.accountId)).dedup.length

/-- Reference: `TRANSACTION_STATUS`. -/
inductive TransactionStatus where
  | draft | posted
  deriving DecidableEq

structure CreateTransactionPayload where
  date : String
  description : String
  reference : Option String
  status : Option TransactionStatus
  lines : List Posting
  subjectType : Option String
  subjectId : Option String
  deriving DecidableEq

/-- Reference: `createTransactionPayloadSchema`. -/
def createTransactionPayloadSchema (p : CreateTransactionPayload) : Bool :=
  lengthWithin 1 32 p.date && lengthWithin 1 200 p.description && p.reference.all (lengthWithin 0 120) &&
    (p.lines.all postingSchema && 2 ≤ p.lines.length) && p.subjectType.all (lengthWithin 1 64) &&
    p.subjectId.all (lengthWithin 1 128) && p.subjectType.isNone = p.subjectId.isNone &&
    sumIsZero p.lines && touchesTwoAccounts p.lines

structure ReverseTransactionPayload where
  id : String
  date : Option String
  description : Option String
  deriving DecidableEq

/-- Reference: `reverseTransactionPayloadSchema`. -/
def reverseTransactionPayloadSchema (p : ReverseTransactionPayload) : Bool :=
  lengthWithin 1 64 p.id && p.date.all (lengthWithin 1 32) && p.description.all (lengthWithin 1 200)

structure ConfirmSchedulePeriodPayload where
  scheduleId : String
  period : String
  amount : Option ℤ
  date : Option String
  deriving DecidableEq

/-- Reference: `confirmSchedulePeriodPayloadSchema`. -/
def confirmSchedulePeriodPayloadSchema (p : ConfirmSchedulePeriodPayload) : Bool :=
  lengthWithin 1 64 p.scheduleId && hasShape "dddd-dd" p.period &&
    p.amount.all (fun n => isSafeInteger n && 0 < n) && p.date.all (hasShape "dddd-dd-dd")

/-! ## Rows -/

/-- Which command booked an entry; a booking and a reversal know the schedule period they belong to. No
handler reads it. -/
inductive EntryOrigin where
  | manual
  | booked (period : String)
  | reversal (id : String) (period : Option String)
  deriving DecidableEq

/-- What a command books. -/
structure EntryData where
  date : String
  description : String
  reference : Option String
  status : TransactionStatus
  lines : List Posting
  subjectType : Option String
  subjectId : Option String
  origin : EntryOrigin
  deriving DecidableEq

/-- A row of `read_ledger_transactions`. -/
structure LedgerEntry extends EntryData where
  id : String
  tenantId : String
  deriving DecidableEq

/-- A row of `read_ledger_accounts`. -/
structure LedgerAccount where
  id : String
  tenantId : String

/-- A row of `read_ledger_schedules`. -/
structure LedgerSchedule where
  id : String
  tenantId : String
  description : String
  startDate : String
  endDate : Option String
  amount : ℤ
  debitAccountId : String
  creditAccountId : String
  subjectType : Option String
  subjectId : Option String
  deriving DecidableEq

/-- What an entry adds to an account; a draft does not count. Reference: `rawBalances`. -/
def EntryData.effect (e : EntryData) (accountId : String) : ℤ :=
  match e.status with
  | .draft => 0
  | .posted => ((e.lines.filter (·.accountId = accountId)).map (·.amount)).sum

/-- The lines of a mirror. -/
def negated (lines : List Posting) : List Posting := lines.map fun l => { l with amount := -l.amount }

/-- Reference: `isoMonth`. -/
def isoMonth (iso : String) : String := .ofList (iso.toList.take 7)

/-- Reference: `scheduleReference`. -/
def scheduleReference (scheduleId period : String) : String := "schedule:" ++ scheduleId ++ ":" ++ period

/-- The reference of the schedule period an entry belongs to: its own, or that of the entry it reverses. -/
def LedgerEntry.periodReference (e : LedgerEntry) : Option String :=
  match e.origin with
  | .manual => e.reference
  | .booked period => some period
  | .reversal _ period => period

/-- The entry that an entry was booked to reverse. -/
def EntryData.reverses (e : EntryData) : Option String :=
  match e.origin with
  | .reversal id _ => some id
  | _ => none

/-! ## Booked or not -/

/-- Reference: `findReversedIds`. -/
def findReversedIds (rows : List LedgerEntry) : List String :=
  let ids := rows.map (·.id)
  rows.flatMap fun r => (r.reference.filter (· ∈ ids)).toList

/-- The rows that carry the reference, and those whose reference is the id of one of these. Reference: the two
reads of `createConfirmSchedulePeriodHandler`. -/
def selectCandidates (rows : List LedgerEntry) (tenantId reference : String) : List LedgerEntry :=
  rows.filter fun r => r.tenantId = tenantId ∧ r.reference = some reference

def selectStornos (rows : List LedgerEntry) (tenantId : String) (candidates : List LedgerEntry) :
    List LedgerEntry :=
  rows.filter fun r => r.tenantId = tenantId ∧ ∃ c ∈ candidates, r.reference = some c.id

/-- The booking a confirmation returns instead of booking again. -/
def activeBooking (candidates stornos : List LedgerEntry) : Option LedgerEntry :=
  let reversedIds := findReversedIds (candidates ++ stornos)
  candidates.find? fun r => r.id ∉ reversedIds

structure ProjectedPeriod where
  period : String
  date : String
  amount : ℤ

inductive ScheduleMonthStatus where
  | posted | isOpen | forecast
  deriving DecidableEq

structure ScheduleMonth where
  period : String
  planned : ℤ
  actual : Option ℤ
  txId : Option String
  status : ScheduleMonthStatus

/-- The index of a month `YYYY-MM`. Reference: `monthIndex`. -/
def monthIndex (ym : String) : Option ℤ :=
  match ym.toList.map fun c => (c, (c.toNat : ℤ) - '0'.toNat) with
  | [(_, a), (_, b), (_, c), (_, d), ('-', _), (_, e), (_, f)] =>
    some ((1000 * a + 100 * b + 10 * c + d) * 12 + (10 * e + f - 1))
  | _ => none

/-- Reference: `mergeScheduleActuals`. -/
def mergeScheduleActuals (scheduleId : String) (projection : List ProjectedPeriod)
    (transactions : List LedgerEntry) (asOf : String) : List ScheduleMonth :=
  let reversedTxIds := findReversedIds transactions
  let asOfIndex := monthIndex (isoMonth asOf)
  projection.map fun projected =>
    let reference := scheduleReference scheduleId projected.period
    match transactions.find? fun t => t.reference = some reference ∧ t.id ∉ reversedTxIds with
    | some active =>
      { period := projected.period
        planned := projected.amount
        actual := some |(active.lines.head?.map (·.amount)).getD 0|
        txId := some active.id
        status := .posted }
    | none =>
      let past := match monthIndex projected.period, asOfIndex with
        | some month, some current => decide (month ≤ current)
        | _, _ => false
      { period := projected.period
        planned := projected.amount
        actual := none
        txId := none
        status := if past then .isOpen else .forecast }

end Kumiko
