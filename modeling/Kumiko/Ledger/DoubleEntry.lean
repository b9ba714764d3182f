import Kumiko.Ledger.Books

/-!
# Double entry

Every entry is to balance and to touch two accounts. A create checks both on its payload, in floating point and
on the texts of the account ids. `double_entry_of_run` shows that this is enough where the sums stay exact, an
account is spelled in one way and a schedule names two accounts.
-/

namespace Kumiko

open Transition

/-! ## Balanced lines -/

/-- The texts name two accounts. -/
def TwoAccounts (accountId accountId' : String) : Prop :=
  (uuidIn accountId).isSome ∧ (uuidIn accountId').isSome ∧ uuidIn accountId ≠ uuidIn accountId'

instance (accountId accountId' : String) : Decidable (TwoAccounts accountId accountId') :=
  inferInstanceAs (Decidable (_ ∧ _ ∧ _))

/-- The amounts sum to zero, and two distinct accounts are touched. -/
def DoubleEntry (lines : List Posting) : Prop :=
  (lines.map (·.amount)).sum = 0 ∧ ∃ l ∈ lines, ∃ l' ∈ lines, TwoAccounts l.accountId l'.accountId

instance (lines : List Posting) : Decidable (DoubleEntry lines) :=
  inferInstanceAs (Decidable (_ ∧ ∃ l ∈ lines, ∃ l' ∈ lines, _))

/-- No account is spelled in two ways. -/
def SpelledAlike (lines : List Posting) : Prop :=
  ∀ l ∈ lines, ∀ l' ∈ lines, NamesRow l.accountId l'.accountId → l.accountId = l'.accountId

instance (lines : List Posting) : Decidable (SpelledAlike lines) :=
  inferInstanceAs (Decidable (∀ l ∈ lines, ∀ l' ∈ lines, _ → _))

/-- Negated lines have the negated sum. -/
theorem sum_negated (lines : List Posting) :
    ((negated lines).map (·.amount)).sum = -(lines.map (·.amount)).sum := by
  induction lines with
  | nil => rfl
  | cons l lines ih =>
    have hcons : ((negated (l :: lines)).map (·.amount)).sum = -l.amount + ((negated lines).map (·.amount)).sum := rfl
    rw [hcons, ih, List.map_cons, List.sum_cons, neg_add]

theorem DoubleEntry.negated {lines : List Posting} (h : DoubleEntry lines) : DoubleEntry (negated lines) := by
  obtain ⟨hsum, l, hl, l', hl', htwo⟩ := h
  exact ⟨by rw [sum_negated, hsum, neg_zero], _, List.mem_map_of_mem hl, _, List.mem_map_of_mem hl', htwo⟩

/-- A booking of two accounts balances and touches both. -/
theorem doubleEntry_booking {p : ConfirmSchedulePeriodPayload} {schedule : LedgerSchedule}
    (h : TwoAccounts schedule.debitAccountId schedule.creditAccountId) :
    DoubleEntry (bookingEntry p schedule).lines := by
  refine ⟨?_, _, List.mem_cons_self, _, List.mem_cons_of_mem _ List.mem_cons_self, h⟩
  show p.amount.getD schedule.amount + (-p.amount.getD schedule.amount + 0) = 0
  rw [add_zero, add_neg_cancel]

/-- Lines that touch two accounts have two ids that differ. -/
theorem exists_of_touchesTwoAccounts {lines : List Posting} (h : touchesTwoAccounts lines = true) :
    ∃ l ∈ lines, ∃ l' ∈ lines, l.accountId ≠ l'.accountId := by
  have hlength : 2 ≤ (lines.map (·.accountId)).dedup.length := by simpa [touchesTwoAccounts] using h
  obtain ⟨x, y, rest, hdedup⟩ : ∃ x y rest, (lines.map (·.accountId)).dedup = x :: y :: rest := by
    match hd : (lines.map (·.accountId)).dedup with
    | [] => rw [hd] at hlength; cases hlength
    | [x] => rw [hd] at hlength; exact absurd hlength (by simp)
    | x :: y :: rest => exact ⟨x, y, rest, hd⟩
  have hmem : ∀ z ∈ [x, y], ∃ l ∈ lines, l.accountId = z := by
    intro z hz
    have hz' : z ∈ (lines.map (·.accountId)).dedup := by
      rw [hdedup]
      exact List.mem_of_mem_take (i := 2) hz
    exact List.mem_map.1 (List.mem_dedup.1 hz')
  obtain ⟨l, hl, hx⟩ := hmem x List.mem_cons_self
  obtain ⟨l', hl', hy⟩ := hmem y (List.mem_cons_of_mem _ List.mem_cons_self)
  have hnodup := List.nodup_dedup (lines.map (·.accountId))
  rw [hdedup] at hnodup
  refine ⟨l, hl, l', hl', fun heq => (List.nodup_cons.1 hnodup).1 ?_⟩
  rw [← hx, heq, hy]
  exact List.mem_cons_self

/-! ## What a phase knows -/

/-- The payload balances and names two accounts, if those still to be looked up exist. -/
def CreateBalanced (p : CreateTransactionPayload) (rest : List String) : Prop :=
  (p.lines.map (·.amount)).sum = 0 ∧
    (∃ l ∈ p.lines, ∃ l' ∈ p.lines, ¬ NamesRow l.accountId l'.accountId) ∧
    ∀ l ∈ p.lines, l.accountId ∈ rest ∨ (uuidIn l.accountId).isSome

/-- The schedule names two accounts, if those still to be looked up exist. -/
def ScheduleBalanced (schedule : LedgerSchedule) (rest : List String) : Prop :=
  ¬ NamesRow schedule.debitAccountId schedule.creditAccountId ∧
    ∀ text ∈ [schedule.debitAccountId, schedule.creditAccountId], text ∈ rest ∨ (uuidIn text).isSome

def LedgerPhase.Balanced : LedgerPhase → Prop
  | .createAccounts p rest => CreateBalanced p rest
  | .scheduleAccounts _ sch rest => ScheduleBalanced sch rest
  | .candidates _ sch => TwoAccounts sch.debitAccountId sch.creditAccountId
  | .stornos _ sch _ => TwoAccounts sch.debitAccountId sch.creditAccountId
  | .reversals _ entry => DoubleEntry entry.lines
  | .insert e => DoubleEntry e.lines
  | _ => True

/-- An accepted payload makes a double entry. -/
theorem CreateBalanced.doubleEntry {p : CreateTransactionPayload} (h : CreateBalanced p []) :
    DoubleEntry (manualEntry p).lines := by
  obtain ⟨hsum, ⟨l, hl, l', hl', hne⟩, hfound⟩ := h
  have hsome : ∀ l ∈ p.lines, (uuidIn l.accountId).isSome := fun l hl =>
    (hfound l hl).resolve_left List.not_mem_nil
  exact ⟨hsum, l, hl, l', hl', hsome l hl, hsome l' hl', fun heq => hne ⟨hsome l hl, heq⟩⟩

theorem ScheduleBalanced.twoAccounts {schedule : LedgerSchedule} (h : ScheduleBalanced schedule []) :
    TwoAccounts schedule.debitAccountId schedule.creditAccountId := by
  obtain ⟨hne, hfound⟩ := h
  have hdebit := (hfound _ List.mem_cons_self).resolve_left List.not_mem_nil
  have hcredit := (hfound _ (List.mem_cons_of_mem _ List.mem_cons_self)).resolve_left List.not_mem_nil
  exact ⟨hdebit, hcredit, fun heq => hne ⟨hdebit, heq⟩⟩

namespace Books

variable {n : ℕ} {s s' : Books n} {k : Fin n} {a : LedgerAct n}

/-- The schedule that a confirmation is about to read names two accounts. -/
def ReadsTwoAccounts (s : Books n) (tenantId : String) : LedgerPhase → Prop
  | .schedule p => ∀ schedule ∈ s.findSchedule tenantId p.scheduleId,
      ¬ NamesRow schedule.debitAccountId schedule.creditAccountId
  | _ => True

instance (s : Books n) (tenantId : String) (phase : LedgerPhase) : Decidable (s.ReadsTwoAccounts tenantId phase) :=
  match phase with
  | .schedule _ => inferInstanceAs (Decidable (∀ schedule ∈ s.findSchedule _ _, ¬ NamesRow _ _))
  | .idle | .createAccounts .. | .scheduleAccounts .. | .candidates .. | .stornos .. | .original _
  | .reversals .. | .insert _ => .isTrue trivial

/-- The sums of a payload stay within the integers that a number holds exactly, no account is spelled in two
ways, and the schedule that a confirmation reads names two accounts. -/
def PlainInput (s : Books n) : LedgerAct n → Prop
  | .command _ (.create p) => Binary64.PartialSumsExact (p.lines.map (·.amount)) ∧ SpelledAlike p.lines
  | .run k _ => s.ReadsTwoAccounts (s.clients k).tenantId (s.clients k).phase
  | _ => True

instance (s : Books n) (a : LedgerAct n) : Decidable (s.PlainInput a) :=
  match a with
  | .command _ (.create _) => inferInstanceAs (Decidable (_ ∧ _))
  | .command _ (.confirm _) => .isTrue trivial
  | .command _ (.reverse _) => .isTrue trivial
  | .run k _ => inferInstanceAs (Decidable (s.ReadsTwoAccounts (s.clients k).tenantId (s.clients k).phase))
  | .beginTx .. => .isTrue trivial
  | .fail .. => .isTrue trivial
  | .commit .. => .isTrue trivial
  | .rollback .. => .isTrue trivial
  | .putAccount .. => .isTrue trivial
  | .putSchedule .. => .isTrue trivial

structure DoubleEntryInv (s : Books n) : Prop where
  entries : ∀ e ∈ s.entries, DoubleEntry e.lines
  own : ∀ k, ∀ e ∈ (s.clients k).own, DoubleEntry e.lines
  phase : ∀ k, (s.clients k).phase.Balanced

/-- A client's own step keeps the entries of the others. -/
theorem DoubleEntryInv.setClient (h : DoubleEntryInv s) {cl : LedgerClient}
    (hown : ∀ e ∈ cl.own, DoubleEntry e.lines) (hphase : cl.phase.Balanced) :
    DoubleEntryInv (s.setClient k cl) where
  entries := h.entries
  own j := by
    show ∀ e ∈ (Function.update s.clients k cl j).own, _
    rcases eq_or_ne j k with rfl | hne
    · rwa [Function.update_self]
    · rw [Function.update_of_ne hne]
      exact h.own j
  phase j := by
    show (Function.update s.clients k cl j).phase.Balanced
    rcases eq_or_ne j k with rfl | hne
    · rwa [Function.update_self]
    · rw [Function.update_of_ne hne]
      exact h.phase j

theorem DoubleEntryInv.view (h : DoubleEntryInv s) : ∀ e ∈ s.view k, DoubleEntry e.lines := fun e he =>
  (List.mem_append.1 he).elim (h.entries e) (h.own k e)

theorem isSome_of_findAccount {tenantId accountId : String} {account : LedgerAccount}
    (h : s.findAccount tenantId accountId = some account) : (uuidIn accountId).isSome := by
  have hfound := List.find?_some h
  exact (of_decide_eq_true hfound).1.1

/-- A text that has been looked up names an account. -/
theorem looked_up {text accountId : String} {rest : List String} {account : LedgerAccount} {tenantId : String}
    (hfound : s.findAccount tenantId accountId = some account)
    (h : text ∈ accountId :: rest ∨ (uuidIn text).isSome) : text ∈ rest ∨ (uuidIn text).isSome := by
  rcases h with hmem | hsome
  · rcases List.mem_cons.1 hmem with rfl | hmem
    · exact .inr (isSome_of_findAccount hfound)
    · exact .inl hmem
  · exact .inr hsome

/-- A lookup keeps what is to be inserted balanced. -/
theorem DoubleEntryInv.advances {phase phase' : LedgerPhase} (h : DoubleEntryInv s)
    (hphase : phase.Balanced)
    (hok : s.ReadsTwoAccounts (s.clients k).tenantId phase)
    (ha : s.Advances k phase phase') : phase'.Balanced := by
  cases ha with
  | createAccount hfound =>
    obtain ⟨hsum, htwo, hall⟩ := hphase
    exact ⟨hsum, htwo, fun l hl => looked_up hfound (hall l hl)⟩
  | schedule hfound _ => exact ⟨hok _ hfound, fun _ hmem => .inl hmem⟩
  | scheduleAccount hfound => exact ⟨hphase.1, fun text hmem => looked_up hfound (hphase.2 text hmem)⟩
  | candidates => exact hphase
  | unbooked _ => exact doubleEntry_booking hphase
  | original hfound _ => exact h.view _ (List.mem_of_find?_eq_some hfound)
  | unreversed _ => exact DoubleEntry.negated hphase

theorem Booking.balanced {phase : LedgerPhase} {e : EntryData} (h : Booking phase e) (hphase : phase.Balanced) :
    DoubleEntry e.lines := by
  cases h with
  | manual => exact CreateBalanced.doubleEntry hphase
  | insert => exact hphase

/-- A payload that passes its schema is balanced where its sums are exact. -/
theorem balanced_start {call : LedgerCall} (ha : call.accepted = true)
    (hok : ∀ p, call = .create p →
      Binary64.PartialSumsExact (p.lines.map (·.amount)) ∧ SpelledAlike p.lines) :
    call.start.Balanced := by
  cases call with
  | confirm p => trivial
  | reverse p => trivial
  | create p =>
    obtain ⟨hexact, hspelled⟩ := hok p rfl
    have hschema : createTransactionPayloadSchema p = true := ha
    obtain ⟨hrest, htwo⟩ := Bool.and_eq_true_iff.1 hschema
    have hzero := of_decide_eq_true (Bool.and_eq_true_iff.1 hrest).2
    obtain ⟨l, hl, l', hl', hne⟩ := exists_of_touchesTwoAccounts htwo
    refine ⟨by rwa [Binary64.roundedSum_eq_sum hexact] at hzero, ?_, fun l hl => .inl ?_⟩
    · exact ⟨l, hl, l', hl', fun hsame => hne (hspelled l hl l' hl' hsame)⟩
    · exact List.mem_eraseDups.2 (List.mem_map_of_mem hl)

/-- Every step with plain input keeps double entry. -/
theorem DoubleEntryInv.step (h : DoubleEntryInv s) (hok : s.PlainInput a) (hs : s.step a = some s') :
    DoubleEntryInv s' := by
  cases BooksStep.of_step hs with
  | beginTx => exact h.setClient (fun _ he => nomatch he) trivial
  | @command k call _ hacc =>
    refine h.setClient (h.own _) (balanced_start hacc fun p hp => ?_)
    subst hp
    exact hok
  | fail => exact h.setClient (h.own _) trivial
  | rollback => exact h.setClient (fun _ he => nomatch he) trivial
  | putAccount => exact ⟨h.entries, h.own, h.phase⟩
  | putSchedule => exact ⟨h.entries, h.own, h.phase⟩
  | @commit k _ =>
    have hclosed : DoubleEntryInv (s.setClient k .closed) := h.setClient (fun _ he => nomatch he) trivial
    exact ⟨fun e he => h.view e he, hclosed.own, hclosed.phase⟩
  | @run k id _ hrun =>
    cases hrun with
    | giveUp => exact h.setClient (h.own k) trivial
    | goto ha => exact h.setClient (h.own k) (h.advances (h.phase k) hok ha)
    | lock hp _ =>
      have hphase := h.phase k
      rw [hp] at hphase
      exact h.setClient (h.own k) (ScheduleBalanced.twoAccounts hphase)
    | alreadyBooked => exact h.setClient (by simpa using h.own k) trivial
    | insert hb _ =>
      refine h.setClient (fun e he => ?_) trivial
      rcases List.mem_append.1 he with hold | hnew
      · exact h.own k e hold
      · rw [List.mem_singleton.1 hnew]
        exact hb.balanced (h.phase k)

/-- Every posted entry of a run is a double entry, where what the commands are given is plain. -/
theorem double_entry_of_run (s : Books n) (hr : Run step PlainInput initial s) :
    ∀ e ∈ s.entries, e.status = .posted → DoubleEntry e.lines := by
  have hinv : DoubleEntryInv s := 
    hr.invariant ⟨fun _ he => (nomatch he), fun _ _ he => (nomatch he), fun _ => trivial⟩ fun _ _ _ hi hok hs =>
      hi.step hok hs
  exact fun e he _ => hinv.entries e he

/-! ## Concrete books -/

def bankId : String := "01890a5d-ac96-774b-bcce-b302099a8057"

def rentId : String := "01890a5d-ac96-774b-bcce-b302099a8058"

def leaseId : String := "01890a5d-ac96-774b-bcce-b302099a8059"

def entryId (digit : String) : String := "01890a5d-ac96-774b-bcce-b302099a80a" ++ digit

/-- A monthly rent of 500. -/
def rentSchedule (debitAccountId creditAccountId : String) : LedgerSchedule :=
  { id := leaseId, tenantId := "tenant-a", description := "Rent", startDate := "2026-01-01", endDate := none
    amount := 500, debitAccountId, creditAccountId, subjectType := none, subjectId := none }

/-- Two accounts and the schedule. -/
def openBooks (schedule : LedgerSchedule) : List (LedgerAct n) :=
  [.putAccount ⟨bankId, "tenant-a"⟩, .putAccount ⟨rentId, "tenant-a"⟩, .putSchedule schedule]

/-- A transaction with one command that runs to its end. -/
def inOneTx (k : Fin n) (call : LedgerCall) (statements : ℕ) (id : String) : List (LedgerAct n) :=
  [.beginTx k "tenant-a", .command k call] ++ List.replicate statements (.run k id) ++ [.commit k]

def confirmJanuary : LedgerCall := .confirm ⟨leaseId, "2026-01", none, none⟩

def reverseEntry (id : String) : LedgerCall := .reverse ⟨id, none, none⟩

def createEntry (reference : Option String) : LedgerCall :=
  .create ⟨"2026-01-15", "Rent", reference, none, [⟨bankId, 700⟩, ⟨rentId, -700⟩], none, none⟩

/-- A manual entry, a booking and a reversal. -/
theorem double_entry_of_run_rent : ∃ s : Books 1, Run step PlainInput initial s ∧
    s.entries.length = 3 ∧ ∀ e ∈ s.entries, e.status = .posted → DoubleEntry e.lines := by
  have hrun := exists_run_of_execOk step (fun (s : Books 1) a => decide (s.PlainInput a)) initial
    (openBooks (rentSchedule bankId rentId) ++ inOneTx 0 (createEntry none) 3 (entryId "1") ++
      inOneTx 0 confirmJanuary 7 (entryId "2") ++ inOneTx 0 (reverseEntry (entryId "2")) 3 (entryId "3"))
    (fun s => s.entries.length = 3) (fun _ _ hb => of_decide_eq_true hb) (by decide +kernel) (by decide +kernel)
  obtain ⟨s, hr, hlength⟩ := hrun
  exact ⟨s, hr, of_decide_eq_true hlength, double_entry_of_run s hr⟩

/-- A schedule whose two accounts are one. -/
theorem not_double_entry : ¬ ∀ s : Books 1, Run step (fun _ _ => True) initial s →
    ∀ e ∈ s.entries, e.status = .posted → DoubleEntry e.lines := by
  intro h
  obtain ⟨s, hr, hs⟩ := exists_run_of_exec step (initial : Books 1)
    (openBooks (rentSchedule bankId bankId) ++ inOneTx 0 confirmJanuary 7 (entryId "1"))
    (fun s => decide (∃ e ∈ s.entries, e.status = .posted ∧ ¬ DoubleEntry e.lines)) (by decide +kernel)
  obtain ⟨e, he, hposted, hne⟩ := of_decide_eq_true hs
  exact hne (h s hr e he hposted)

end Books

end Kumiko
