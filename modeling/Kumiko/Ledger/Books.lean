import Kumiko.Db.ExecutorVerbs
import Kumiko.Ledger.Postings

/-!
# The books and the commands on them

`ledger/handlers/*.write.ts` for any number of clients, statement by statement: a statement sees what is
committed and what its own transaction has booked. `confirm-schedule-period` takes an advisory lock on its
reference before it looks for a booking; `reverse-transaction` looks for a reversal and takes none. Accounts and
schedules are put whenever the generic handlers like; entries are neither changed nor deleted.
-/

namespace Kumiko

/-! ## Commands -/

inductive LedgerCall where
  | create (p : CreateTransactionPayload)
  | confirm (p : ConfirmSchedulePeriodPayload)
  | reverse (p : ReverseTransactionPayload)

/-- The payload passes the schema of its handler. -/
def LedgerCall.accepted : LedgerCall → Bool
  | .create p => createTransactionPayloadSchema p
  | .confirm p => confirmSchedulePeriodPayloadSchema p
  | .reverse p => reverseTransactionPayloadSchema p

/-- The statement a command is about to run, with what those before it have read. -/
inductive LedgerPhase where
  | idle
  | createAccounts (p : CreateTransactionPayload) (rest : List String)
  | schedule (p : ConfirmSchedulePeriodPayload)
  | scheduleAccounts (p : ConfirmSchedulePeriodPayload) (schedule : LedgerSchedule) (rest : List String)
  | candidates (p : ConfirmSchedulePeriodPayload) (schedule : LedgerSchedule)
  | stornos (p : ConfirmSchedulePeriodPayload) (schedule : LedgerSchedule) (candidates : List LedgerEntry)
  | original (p : ReverseTransactionPayload)
  | reversals (p : ReverseTransactionPayload) (original : LedgerEntry)
  | insert (e : EntryData)
  deriving DecidableEq

/-- Reference: `createCreateTransactionHandler`. -/
def manualEntry (p : CreateTransactionPayload) : EntryData :=
  { date := p.date, description := p.description, reference := p.reference
    status := p.status.getD .posted, lines := p.lines, subjectType := p.subjectType
    subjectId := p.subjectId, origin := .manual }

/-- Reference: `createConfirmSchedulePeriodHandler`. -/
def bookingEntry (p : ConfirmSchedulePeriodPayload) (schedule : LedgerSchedule) : EntryData :=
  let amount := p.amount.getD schedule.amount
  { date := p.date.getD (p.period ++ "-01"), description := schedule.description
    reference := some (scheduleReference p.scheduleId p.period), status := .posted
    lines := [⟨schedule.debitAccountId, amount⟩, ⟨schedule.creditAccountId, -amount⟩]
    subjectType := schedule.subjectType, subjectId := schedule.subjectId
    origin := .booked (scheduleReference schedule.id p.period) }

/-- Reference: `createReverseTransactionHandler`. -/
def mirrorEntry (p : ReverseTransactionPayload) (original : LedgerEntry) : EntryData :=
  { date := p.date.getD original.date
    description := p.description.getD ("Storno: " ++ original.description)
    reference := some p.id, status := .posted, lines := negated original.lines
    subjectType := original.subjectType, subjectId := original.subjectId
    origin := .reversal original.id original.periodReference }

/-- The schedule has started and not ended by that month. -/
def LedgerSchedule.covers (schedule : LedgerSchedule) (period : String) : Bool :=
  !(period < isoMonth schedule.startDate || schedule.endDate.any fun d => isoMonth d < period)

def LedgerCall.start : LedgerCall → LedgerPhase
  | .create p => .createAccounts p (p.lines.map (·.accountId)).eraseDups
  | .confirm p => .schedule p
  | .reverse p => .original p

/-! ## Clients and their transactions -/

/-- A client: what its transaction has booked, and the references it has locked, in finished commands and in
the one that runs. -/
structure LedgerClient where
  inTx : Bool
  tenantId : String
  own : List LedgerEntry
  held : List String
  taken : List String
  phase : LedgerPhase

def LedgerClient.closed : LedgerClient := ⟨false, "", [], [], [], .idle⟩

/-- Every advisory lock of the client. -/
def LedgerClient.locks (cl : LedgerClient) : List String := cl.taken ++ cl.held

/-- What is committed, and the clients. -/
structure Books (n : ℕ) where
  entries : List LedgerEntry
  accounts : List LedgerAccount
  schedules : List LedgerSchedule
  clients : Fin n → LedgerClient

inductive LedgerAct (n : ℕ) where
  | beginTx (k : Fin n) (tenantId : String)
  | command (k : Fin n) (call : LedgerCall)
  | run (k : Fin n) (id : String)
  | fail (k : Fin n)
  | commit (k : Fin n)
  | rollback (k : Fin n)
  | putAccount (account : LedgerAccount)
  | putSchedule (schedule : LedgerSchedule)

/-- The rows a tenant's handle reads: its own and those of the system tenant. -/
def VisibleTo (tenantId rowTenantId : String) : Prop := rowTenantId = tenantId ∨ rowTenantId = systemTenantId

instance (tenantId rowTenantId : String) : Decidable (VisibleTo tenantId rowTenantId) :=
  inferInstanceAs (Decidable (_ ∨ _))

namespace Books

variable {n : ℕ}

def initial : Books n := ⟨[], [], [], fun _ => .closed⟩

def setClient (s : Books n) (k : Fin n) (cl : LedgerClient) : Books n :=
  { s with clients := Function.update s.clients k cl }

/-- The entries a statement of the client sees. -/
def view (s : Books n) (k : Fin n) : List LedgerEntry := s.entries ++ (s.clients k).own

/-- Every entry, committed or not. -/
def allEntries (s : Books n) : List LedgerEntry :=
  s.entries ++ (List.finRange n).flatMap fun k => (s.clients k).own

/-- Reference: `accountExecutor.detail`. -/
def findAccount (s : Books n) (tenantId accountId : String) : Option LedgerAccount :=
  s.accounts.find? fun a => NamesRow accountId a.id ∧ VisibleTo tenantId a.tenantId

/-- Reference: `scheduleExecutor.detail`. -/
def findSchedule (s : Books n) (tenantId scheduleId : String) : Option LedgerSchedule :=
  s.schedules.find? fun sch => NamesRow scheduleId sch.id ∧ VisibleTo tenantId sch.tenantId

/-- Reference: `transactionExecutor.detail`. -/
def findEntry (s : Books n) (k : Fin n) (id : String) : Option LedgerEntry :=
  (s.view k).find? fun e => NamesRow id e.id ∧ VisibleTo (s.clients k).tenantId e.tenantId

def goto (s : Books n) (k : Fin n) (phase : LedgerPhase) : Books n :=
  s.setClient k { s.clients k with phase }

/-- The command fails; a lock it took is released with its savepoint. -/
def giveUp (s : Books n) (k : Fin n) : Books n :=
  s.setClient k { s.clients k with taken := [], phase := .idle }

/-- The command ends well and has booked the entries given. -/
def finish (s : Books n) (k : Fin n) (booked : List LedgerEntry) : Books n :=
  let cl := s.clients k
  s.setClient k { cl with own := cl.own ++ booked, held := cl.locks, taken := [], phase := .idle }

/-- Another client holds the lock. -/
def LockedElsewhere (s : Books n) (k : Fin n) (reference : String) : Prop :=
  ∃ j, j ≠ k ∧ reference ∈ (s.clients j).locks

instance (s : Books n) (k : Fin n) (reference : String) : Decidable (s.LockedElsewhere k reference) :=
  inferInstanceAs (Decidable (∃ j, j ≠ k ∧ _))

/-- A new id: that of no entry, and named by none. Reference: `generateId`. -/
def Fresh (s : Books n) (id : String) (e : EntryData) : Prop :=
  (uuidIn id).isSome ∧ e.reference ≠ some id ∧
    ∀ e' ∈ s.allEntries, uuidIn e'.id ≠ uuidIn id ∧ e'.reference ≠ some id

instance (s : Books n) (id : String) (e : EntryData) : Decidable (s.Fresh id e) :=
  inferInstanceAs (Decidable (_ ∧ _ ∧ ∀ e' ∈ _, _))

/-- Reference: `transactionExecutor.create`. -/
def insertEntry (s : Books n) (k : Fin n) (id : String) (e : EntryData) : Option (Books n) :=
  if s.Fresh id e then some (s.finish k [⟨e, id, (s.clients k).tenantId⟩]) else none

/-- The next statement of a command. -/
def runCommand (s : Books n) (k : Fin n) (id : String) : Option (Books n) :=
  let cl := s.clients k
  match cl.phase with
  | .idle => none
  | .createAccounts p (accountId :: rest) =>
    some (match s.findAccount cl.tenantId accountId with
      | some _ => s.goto k (.createAccounts p rest)
      | none => s.giveUp k)
  | .createAccounts p [] => s.insertEntry k id (manualEntry p)
  | .schedule p =>
    some (match s.findSchedule cl.tenantId p.scheduleId with
      | some schedule =>
        if schedule.covers p.period then
          s.goto k (.scheduleAccounts p schedule [schedule.debitAccountId, schedule.creditAccountId])
        else s.giveUp k
      | none => s.giveUp k)
  | .scheduleAccounts p schedule (accountId :: rest) =>
    some (match s.findAccount cl.tenantId accountId with
      | some _ => s.goto k (.scheduleAccounts p schedule rest)
      | none => s.giveUp k)
  | .scheduleAccounts p schedule [] =>
    -- `advisoryXactLock`: waits for the holder
    let reference := scheduleReference p.scheduleId p.period
    if s.LockedElsewhere k reference then none
    else some (s.setClient k { cl with taken := reference :: cl.taken, phase := .candidates p schedule })
  | .candidates p schedule =>
    let candidates := selectCandidates (s.view k) cl.tenantId (scheduleReference p.scheduleId p.period)
    some (s.goto k (.stornos p schedule candidates))
  | .stornos p schedule candidates =>
    some (match activeBooking candidates (selectStornos (s.view k) cl.tenantId candidates) with
      | some _ => s.finish k []
      | none => s.goto k (.insert (bookingEntry p schedule)))
  | .original p =>
    some (match s.findEntry k p.id with
      | some original =>
        if original.status = .posted then s.goto k (.reversals p original) else s.giveUp k
      | none => s.giveUp k)
  | .reversals p original =>
    if ∃ e ∈ s.view k, e.tenantId = cl.tenantId ∧ e.reference = some p.id then some (s.giveUp k)
    else some (s.goto k (.insert (mirrorEntry p original)))
  | .insert e => s.insertEntry k id e

def step (s : Books n) : LedgerAct n → Option (Books n)
  | .beginTx k tenantId =>
    if (s.clients k).inTx then none else some (s.setClient k ⟨true, tenantId, [], [], [], .idle⟩)
  | .command k call =>
    if (s.clients k).inTx ∧ (s.clients k).phase = .idle ∧ call.accepted then some (s.goto k call.start) else none
  | .run k id => s.runCommand k id
  | .fail k => if (s.clients k).phase = .idle then none else some (s.giveUp k)
  | .commit k =>
    if (s.clients k).inTx ∧ (s.clients k).phase = .idle then
      some { s with entries := s.view k, clients := Function.update s.clients k .closed }
    else none
  | .rollback k => if (s.clients k).inTx then some (s.setClient k .closed) else none
  | .putAccount account =>
    some { s with accounts := account :: s.accounts.filter (·.id ≠ account.id) }
  | .putSchedule schedule =>
    if 1 ≤ schedule.amount then
      some { s with schedules := schedule :: s.schedules.filter (·.id ≠ schedule.id) }
    else none

/-! ## Cases of a step -/

/-- A statement that leads to another one. -/
inductive Advances (s : Books n) (k : Fin n) : LedgerPhase → LedgerPhase → Prop
  | createAccount {p : CreateTransactionPayload} {accountId : String} {rest : List String} {account : LedgerAccount} :
    s.findAccount (s.clients k).tenantId accountId = some account →
      Advances s k (.createAccounts p (accountId :: rest)) (.createAccounts p rest)
  | schedule {p : ConfirmSchedulePeriodPayload} {schedule : LedgerSchedule} :
    s.findSchedule (s.clients k).tenantId p.scheduleId = some schedule → schedule.covers p.period = true →
      Advances s k (.schedule p)
        (.scheduleAccounts p schedule [schedule.debitAccountId, schedule.creditAccountId])
  | scheduleAccount {p : ConfirmSchedulePeriodPayload} {schedule : LedgerSchedule} {accountId : String}
      {rest : List String} {account : LedgerAccount} :
    s.findAccount (s.clients k).tenantId accountId = some account →
      Advances s k (.scheduleAccounts p schedule (accountId :: rest)) (.scheduleAccounts p schedule rest)
  | candidates {p : ConfirmSchedulePeriodPayload} {schedule : LedgerSchedule} :
    Advances s k (.candidates p schedule) (.stornos p schedule
      (selectCandidates (s.view k) (s.clients k).tenantId (scheduleReference p.scheduleId p.period)))
  | unbooked {p : ConfirmSchedulePeriodPayload} {schedule : LedgerSchedule} {candidates : List LedgerEntry} :
    activeBooking candidates (selectStornos (s.view k) (s.clients k).tenantId candidates) = none →
      Advances s k (.stornos p schedule candidates) (.insert (bookingEntry p schedule))
  | original {p : ReverseTransactionPayload} {original : LedgerEntry} :
    s.findEntry k p.id = some original → original.status = .posted →
      Advances s k (.original p) (.reversals p original)
  | unreversed {p : ReverseTransactionPayload} {original : LedgerEntry} :
    (∀ e ∈ s.view k, e.tenantId = (s.clients k).tenantId → e.reference ≠ some p.id) →
      Advances s k (.reversals p original) (.insert (mirrorEntry p original))

/-- The client is about to book the entry. -/
inductive Booking : LedgerPhase → EntryData → Prop
  | manual {p : CreateTransactionPayload} : Booking (.createAccounts p []) (manualEntry p)
  | insert {e : EntryData} : Booking (.insert e) e

/-- What the next statement of a command does. -/
inductive CommandStep (s : Books n) (k : Fin n) (id : String) : Books n → Prop
  | giveUp : CommandStep s k id (s.giveUp k)
  | goto {phase : LedgerPhase} : s.Advances k (s.clients k).phase phase → CommandStep s k id (s.goto k phase)
  | lock {p : ConfirmSchedulePeriodPayload} {schedule : LedgerSchedule} :
    (s.clients k).phase = .scheduleAccounts p schedule [] →
      ¬ s.LockedElsewhere k (scheduleReference p.scheduleId p.period) →
      CommandStep s k id (s.setClient k { s.clients k with
        taken := scheduleReference p.scheduleId p.period :: (s.clients k).taken
        phase := .candidates p schedule })
  | alreadyBooked : CommandStep s k id (s.finish k [])
  | insert {e : EntryData} : Booking (s.clients k).phase e → s.Fresh id e →
      CommandStep s k id (s.finish k [⟨e, id, (s.clients k).tenantId⟩])

inductive BooksStep (s : Books n) : LedgerAct n → Books n → Prop
  | beginTx {k : Fin n} {tenantId : String} :
    BooksStep s (.beginTx k tenantId) (s.setClient k ⟨true, tenantId, [], [], [], .idle⟩)
  | command {k : Fin n} {call : LedgerCall} : (s.clients k).phase = .idle → call.accepted = true →
      BooksStep s (.command k call) (s.goto k call.start)
  | run {k : Fin n} {id : String} {s' : Books n} : s.CommandStep k id s' → BooksStep s (.run k id) s'
  | fail {k : Fin n} : BooksStep s (.fail k) (s.giveUp k)
  | commit {k : Fin n} : (s.clients k).phase = .idle → BooksStep s (.commit k)
      { s with entries := s.view k, clients := Function.update s.clients k .closed }
  | rollback {k : Fin n} : BooksStep s (.rollback k) (s.setClient k .closed)
  | putAccount {account : LedgerAccount} : BooksStep s (.putAccount account)
      { s with accounts := account :: s.accounts.filter (·.id ≠ account.id) }
  | putSchedule {schedule : LedgerSchedule} : BooksStep s (.putSchedule schedule)
      { s with schedules := schedule :: s.schedules.filter (·.id ≠ schedule.id) }

variable {s s' : Books n} {k : Fin n} {id : String} {a : LedgerAct n}

theorem CommandStep.of_insertEntry {e : EntryData} (hb : Booking (s.clients k).phase e)
    (h : s.insertEntry k id e = some s') : s.CommandStep k id s' := by
  unfold insertEntry at h
  split at h
  · next hfresh => cases h; exact .insert hb hfresh
  · cases h

/-- A statement of a command is one of the steps that `CommandStep` lists. -/
theorem CommandStep.of_runCommand (h : s.runCommand k id = some s') : s.CommandStep k id s' := by
  unfold runCommand at h
  dsimp only at h
  split at h
  · cases h
  · next hp =>
    cases h
    split
    · next hfound => exact .goto (hp ▸ .createAccount hfound)
    · exact .giveUp
  · next hp => exact .of_insertEntry (hp ▸ .manual) h
  · next hp =>
    cases h
    split
    · next hfound =>
      split
      · next hcovers => exact .goto (hp ▸ .schedule hfound hcovers)
      · exact .giveUp
    · exact .giveUp
  · next hp =>
    cases h
    split
    · next hfound => exact .goto (hp ▸ .scheduleAccount hfound)
    · exact .giveUp
  · next hp =>
    split at h
    · cases h
    · next hfree => cases h; exact .lock hp hfree
  · next hp => cases h; exact .goto (hp ▸ .candidates)
  · next hp =>
    cases h
    split
    · exact .alreadyBooked
    · next hnone => exact .goto (hp ▸ .unbooked hnone)
  · next hp =>
    cases h
    split
    · next hfound =>
      split
      · next hposted => exact .goto (hp ▸ .original hfound hposted)
      · exact .giveUp
    · exact .giveUp
  · next hp =>
    split at h
    · cases h; exact .giveUp
    · next hnone =>
      cases h
      exact .goto (hp ▸ .unreversed fun e he ht hr => hnone ⟨e, he, ht, hr⟩)
  · next hp => exact .of_insertEntry (hp ▸ .insert) h

/-- What a step of the books can do. -/
theorem BooksStep.of_step (h : s.step a = some s') : s.BooksStep a s' := by
  cases a with
  | run k id => exact .run (.of_runCommand h)
  | putAccount account => cases h; exact .putAccount
  | beginTx k tenantId =>
    simp only [step] at h
    split at h
    · cases h
    · cases h; exact .beginTx
  | command k call =>
    simp only [step] at h
    split at h
    · next hc => cases h; exact .command hc.2.1 hc.2.2
    · cases h
  | fail k =>
    simp only [step] at h
    split at h
    · cases h
    · cases h; exact .fail
  | commit k =>
    simp only [step] at h
    split at h
    · next hc => cases h; exact .commit hc.2
    · cases h
  | rollback k =>
    simp only [step] at h
    split at h
    · cases h; exact .rollback
    · cases h
  | putSchedule schedule =>
    simp only [step] at h
    split at h
    · cases h; exact .putSchedule
    · cases h

end Books

end Kumiko
