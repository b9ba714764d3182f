import Kumiko.Ledger.DoubleEntry
import Kumiko.Library.CalendarDays
import Kumiko.Library.KeyedRows
import Kumiko.Library.KeyedSums

/-!
# The reports

`ledger/reports.ts` and `ledger/handlers/reports.query.ts`: three reports, each a loop of its own over the
tenant's posted entries and accounts, in floating point. A command also accepts an account of the system tenant
and an id in any spelling, which no report matches with an account; `reports_agree_of_run` shows that the
reports agree where neither happens. The queries look for the period in the event and not in its payload, and so
report over all days.
-/

namespace Kumiko

open CalendarDays KeyedRows KeyedSums

/-! ## What a report reads -/

inductive AccountType where
  | asset | liability | equity | income | expense
  deriving DecidableEq

/-- Reference: `LedgerAccount` of `reports.ts`. -/
structure ReportAccount where
  id : String
  name : String
  type : AccountType

/-- Reference: `LedgerEntry` of `reports.ts`. -/
structure ReportEntry where
  status : TransactionStatus
  date : String
  lines : List Posting

/-- Reference: `Period`. -/
structure ReportPeriod where
  from? : Option String
  to? : Option String

/-- The columns of the two tables that no command reads: name and type of an account, and the day that the database
makes of a booked date. -/
structure ReportColumns where
  name : LedgerAccount → String
  type : LedgerAccount → AccountType
  date : String → PlainDate

/-- Reference: `toAccounts`. -/
def toAccounts (columns : ReportColumns) (rows : List LedgerAccount) : List ReportAccount :=
  rows.map fun r => ⟨r.id, columns.name r, columns.type r⟩

/-- Reference: `toEntries`. -/
def toEntries (columns : ReportColumns) (rows : List LedgerEntry) : List ReportEntry :=
  rows.map fun r => ⟨r.status, (columns.date r.date).text, r.lines⟩

/-- The rows of the tenant, and none of the system tenant. Reference: `loadBooks`. -/
def Books.loadBooks {n : ℕ} (s : Books n) (columns : ReportColumns) (tenantId : String) :
    List ReportAccount × List ReportEntry :=
  (toAccounts columns (s.accounts.filter (·.tenantId = tenantId)),
    toEntries columns (s.entries.filter (·.tenantId = tenantId)))

/-! ## The reports -/

/-- Reference: `DEBIT_NORMAL`. -/
def debitNormal : List AccountType := [.asset, .expense]

/-- Reference: `naturalBalance`. -/
def naturalBalance (type : AccountType) (raw : ℤ) : ℤ := if type ∈ debitNormal then raw else -raw

/-- Reference: `inPeriod`. -/
def inPeriod (date : String) (period : ReportPeriod) : Bool :=
  !period.from?.any (date < ·) && !period.to?.any (· < date)

/-- `out.get(accountId) ?? 0`. -/
def rawBalance (out : List (String × ℤ)) (accountId : String) : ℤ := ((lookup Prod.fst accountId out).map (·.2)).getD 0

/-- One posting. -/
def addPosting (out : List (String × ℤ)) (l : Posting) : List (String × ℤ) :=
  upsert Prod.fst (l.accountId, Binary64.roundInt (rawBalance out l.accountId + l.amount)) out

/-- Reference: `rawBalances`. -/
def rawBalances (entries : List ReportEntry) (period : ReportPeriod) : List (String × ℤ) :=
  entries.foldl (fun out e =>
    if e.status ≠ .posted then out
    else if !inPeriod e.date period then out
    else e.lines.foldl addPosting out) []

/-- Reference: `AccountBalance`. -/
structure AccountBalance extends ReportAccount where
  balance : ℤ

/-- Reference: `BalancesReport`. -/
structure BalancesReport where
  accounts : List AccountBalance
  trialBalance : ℤ

/-- Reference: `accountBalances`. -/
def accountBalances (accounts : List ReportAccount) (entries : List ReportEntry) (period : ReportPeriod) :
    BalancesReport :=
  let raw := rawBalances entries period
  { accounts := accounts.map fun a => ⟨a, naturalBalance a.type (rawBalance raw a.id)⟩
    trialBalance := Binary64.roundedSum (raw.map (·.2)) }

/-- What the loop over the accounts adds up for one type. -/
def naturalSum (accounts : List ReportAccount) (raw : List (String × ℤ)) (type : AccountType) : ℤ :=
  accounts.foldl (fun sum a =>
    if a.type = type then Binary64.roundInt (sum + naturalBalance a.type (rawBalance raw a.id)) else sum) 0

/-- Reference: `IncomeStatement`. -/
structure IncomeStatement where
  income : ℤ
  expense : ℤ
  netIncome : ℤ

/-- Reference: `incomeStatement`. -/
def incomeStatement (accounts : List ReportAccount) (entries : List ReportEntry) (period : ReportPeriod) :
    IncomeStatement :=
  let raw := rawBalances entries period
  let income := naturalSum accounts raw .income
  let expense := naturalSum accounts raw .expense
  { income, expense, netIncome := Binary64.roundInt (income - expense) }

/-- Reference: `BalanceSheet`. -/
structure BalanceSheet where
  assets : ℤ
  liabilities : ℤ
  equity : ℤ
  currentResult : ℤ
  balances : Bool

/-- Reference: `balanceSheet`. -/
def balanceSheet (accounts : List ReportAccount) (entries : List ReportEntry) (period : ReportPeriod) : BalanceSheet :=
  let raw := rawBalances entries period
  let assets := naturalSum accounts raw .asset
  let liabilities := naturalSum accounts raw .liability
  let equityBase := naturalSum accounts raw .equity
  let income := naturalSum accounts raw .income
  let expense := naturalSum accounts raw .expense
  let currentResult := Binary64.roundInt (income - expense)
  let equity := Binary64.roundInt (equityBase + currentResult)
  { assets, liabilities, equity, currentResult
    balances := assets = Binary64.roundInt (liabilities + equity) }

/-! ## The queries -/

/-- What a request holds, as far as a report looks at it. -/
inductive QueryValue where
  | text (s : String)
  | object (members : List (String × QueryValue))
  | other

/-- A member that may be missing; `none` where it is refused. Reference: `z.string().min(1).max(32).optional()`. -/
def optionalDay (members : List (String × QueryValue)) (key : String) : Option (Option String) :=
  match members.lookup key with
  | none => some none
  | some (.text s) => if lengthWithin 1 32 s then some (some s) else none
  | some _ => none

/-- Members of other names are dropped. Reference: `periodSchema`. -/
def periodSchema : QueryValue → Option ReportPeriod
  | .object members => do return ⟨← optionalDay members "from", ← optionalDay members "to"⟩
  | _ => none

def ReportPeriod.payload (period : ReportPeriod) : QueryValue :=
  .object ((period.from?.map fun day => ("from", .text day)).toList ++
    (period.to?.map fun day => ("to", .text day)).toList)

/-- Reference: `QueryEvent`. -/
def queryEvent (type : String) (payload user : QueryValue) : QueryValue :=
  .object [("type", .text type), ("payload", payload), ("user", user)]

namespace Books

variable {n : ℕ} {α : Type} (compute : List ReportAccount → List ReportEntry → ReportPeriod → α) (s : Books n)
  (columns : ReportColumns) (tenantId : String) (user : List (String × QueryValue))

/-- The period is read from the event, and not from its payload. Reference: `createPeriodReportHandler`. -/
def createPeriodReportHandler (query : QueryValue) : Option α := do
  let period ← periodSchema query
  let books := s.loadBooks columns tenantId
  return compute books.1 books.2 period

/-- For a client that may ask. Reference: `executeQueryInner`. -/
def executeQuery (type : String) (payload : QueryValue) : Option α := do
  let parsed ← periodSchema payload
  createPeriodReportHandler compute s columns tenantId
    (queryEvent type parsed.payload (.object (("tenantId", .text tenantId) :: user)))

/-- No period reaches the report. -/
theorem executeQuery_eq (type : String) (payload : QueryValue) :
    executeQuery compute s columns tenantId user type payload = (periodSchema payload).map fun _ =>
      compute (s.loadBooks columns tenantId).1 (s.loadBooks columns tenantId).2 ⟨none, none⟩ := by
  unfold executeQuery
  cases periodSchema payload <;> rfl

/-- Reference: `createBalancesReportHandler`. -/
def reportBalances : QueryValue → Option BalancesReport :=
  executeQuery accountBalances s columns tenantId user "ledger:query:report:balances"

/-- Reference: `createIncomeStatementHandler`. -/
def reportIncomeStatement : QueryValue → Option IncomeStatement :=
  executeQuery incomeStatement s columns tenantId user "ledger:query:report:income-statement"

/-- Reference: `createBalanceSheetHandler`. -/
def reportBalanceSheet : QueryValue → Option BalanceSheet :=
  executeQuery balanceSheet s columns tenantId user "ledger:query:report:balance-sheet"

end Books

/-! ## The postings of a period -/

/-- The postings that a report counts. -/
def postingsIn (entries : List ReportEntry) (period : ReportPeriod) : List Posting :=
  (entries.filter fun e => e.status = .posted && inPeriod e.date period).flatMap (·.lines)

theorem rawBalances_eq (entries : List ReportEntry) (period : ReportPeriod) :
    rawBalances entries period = (postingsIn entries period).foldl addPosting [] := by
  rw [rawBalances, postingsIn, List.foldl_flatMap, List.foldl_filter]
  congr 1
  funext out e
  by_cases hp : e.status = .posted <;> by_cases hi : inPeriod e.date period = true <;> simp [hp, hi]

/-- What the postings add to an account, and how much they move on it. -/
def postedTo (lines : List Posting) (accountId : String) : ℤ := sumWhere (·.amount) lines (·.accountId = accountId)

def movedOn (lines : List Posting) (accountId : String) : ℤ := sumWhere (|·.amount|) lines (·.accountId = accountId)

/-- How much the postings move. -/
def volume (lines : List Posting) : ℤ := (lines.map (|·.amount|)).sum

section
variable {lines : List Posting} {accountId : String} {accounts : List ReportAccount} {ids : List String}

theorem abs_postedTo_le (lines : List Posting) (accountId : String) :
    |postedTo lines accountId| ≤ movedOn lines accountId := by
  rw [postedTo, movedOn, sumWhere_eq_filter, sumWhere_eq_filter]
  refine (List.le_sum_of_subadditive (|·|) abs_zero.le abs_add_le _).trans ?_
  rw [List.map_map]
  rfl

theorem movedOn_nonneg (lines : List Posting) (accountId : String) : 0 ≤ movedOn lines accountId :=
  (abs_nonneg _).trans (abs_postedTo_le lines accountId)

/-- What moves on distinct accounts is what moves at all, where no posting is on another one. -/
theorem sum_movedOn (hnodup : ids.Nodup) (hcover : ∀ l ∈ lines, l.accountId ∈ ids) :
    (ids.map (movedOn lines)).sum = volume lines := by
  have hgroups : (ids.map fun k => sumWhere (|·.amount|) lines fun l => True ∧ l.accountId = k).sum =
      sumWhere (|·.amount|) lines fun _ => True := sum_groups hnodup fun l hl _ => hcover l hl
  unfold movedOn volume
  simpa [sumWhere] using hgroups

theorem sum_postedTo (hnodup : ids.Nodup) (hcover : ∀ l ∈ lines, l.accountId ∈ ids) :
    (ids.map (postedTo lines)).sum = (lines.map (·.amount)).sum := by
  have hgroups : (ids.map fun k => sumWhere (·.amount) lines fun l => True ∧ l.accountId = k).sum =
      sumWhere (·.amount) lines fun _ => True := sum_groups hnodup fun l hl _ => hcover l hl
  unfold postedTo
  simpa [sumWhere] using hgroups

theorem movedOn_le_volume (lines : List Posting) (accountId : String) : movedOn lines accountId ≤ volume lines := by
  rw [movedOn, volume, sumWhere_eq_filter]
  exact (List.filter_sublist.map _).sum_le_sum fun x hx => (List.mem_map.1 hx).elim fun l hl => hl.2 ▸ abs_nonneg _

theorem postedTo_append (lines : List Posting) (l : Posting) (accountId : String) :
    postedTo (lines ++ [l]) accountId = postedTo lines accountId + if l.accountId = accountId then l.amount else 0 := by
  unfold postedTo sumWhere
  rw [List.map_append, List.sum_append, List.map_singleton, List.sum_singleton]

theorem volume_append (lines lines' : List Posting) : volume (lines ++ lines') = volume lines + volume lines' := by
  unfold volume
  rw [List.map_append, List.sum_append]

theorem rawBalance_upsert_self (out : List (String × ℤ)) (accountId : String) (n : ℤ) :
    rawBalance (upsert Prod.fst (accountId, n) out) accountId = n := by
  have hlookup : lookup Prod.fst accountId (upsert Prod.fst (accountId, n) out) = some (accountId, n) :=
    @lookup_upsert_self (String × ℤ) String _ Prod.fst out (accountId, n)
  rw [rawBalance, hlookup]
  rfl

theorem rawBalance_upsert_of_ne {out : List (String × ℤ)} {accountId other : String} {n : ℤ} (h : accountId ≠ other) :
    rawBalance (upsert Prod.fst (accountId, n) out) other = rawBalance out other := by
  have hlookup : lookup Prod.fst other (upsert Prod.fst (accountId, n) out) = lookup Prod.fst other out :=
    lookup_upsert_of_ne h
  rw [rawBalance, hlookup, rawBalance]

/-- The map holds the exact balances of the postings. -/
structure Balanced (out : List (String × ℤ)) (lines : List Posting) : Prop where
  nodup : (out.map Prod.fst).Nodup
  balance : ∀ accountId, rawBalance out accountId = postedTo lines accountId
  entry : ∀ b ∈ out, b.2 = postedTo lines b.1
  cover : ∀ l ∈ lines, l.accountId ∈ out.map Prod.fst

/-- The balances are exact where the volume is within the integers that a number holds. -/
theorem balanced_foldl (h : volume lines ≤ 2 ^ 53) : Balanced (lines.foldl addPosting []) lines := by
  induction lines using List.reverseRecOn with
  | nil =>
    exact
      { nodup := List.nodup_nil
        balance := fun _ => rfl
        entry := fun _ hb => nomatch hb
        cover := fun _ hl => nomatch hl }
  | append_singleton lines l ih =>
    have hle : volume lines ≤ volume (lines ++ [l]) := by
      rw [volume_append]
      exact le_add_of_nonneg_right (by simp [volume])
    obtain ⟨hnodup, hbalance, hentry, hcover⟩ := ih (hle.trans h)
    have hnew : Binary64.roundInt (rawBalance (lines.foldl addPosting []) l.accountId + l.amount) =
        postedTo (lines ++ [l]) l.accountId := by
      have hsum : rawBalance (lines.foldl addPosting []) l.accountId + l.amount =
          postedTo (lines ++ [l]) l.accountId := by
        rw [postedTo_append, if_pos rfl, hbalance]
      rw [hsum]
      exact Binary64.roundInt_eq_self
        ((abs_postedTo_le _ _).trans ((movedOn_le_volume _ _).trans h))
    have hother : ∀ accountId, l.accountId ≠ accountId → postedTo (lines ++ [l]) accountId = postedTo lines accountId :=
      fun accountId hne => by rw [postedTo_append, if_neg hne, add_zero]
    rw [List.foldl_append, List.foldl_cons, List.foldl_nil, addPosting, hnew]
    refine ⟨nodup_upsert hnodup, fun accountId => ?_, fun b hb => ?_, fun l' hl' => ?_⟩
    · by_cases he : l.accountId = accountId
      · subst he
        exact rawBalance_upsert_self _ _ _
      · rw [rawBalance_upsert_of_ne he, hbalance, hother accountId he]
    · rcases mem_upsert.1 hb with rfl | ⟨hb, hne⟩
      · rfl
      · rw [hother b.1 (Ne.symm hne), hentry b hb]
    · by_cases he : l'.accountId = l.accountId
      · exact List.mem_map.2 ⟨_, mem_upsert.2 (.inl rfl), he.symm⟩
      · have hold : l' ∈ lines := (List.mem_append.1 hl').resolve_right fun hl => he (List.mem_singleton.1 hl ▸ rfl)
        obtain ⟨b, hb, hkey⟩ := List.mem_map.1 (hcover l' hold)
        exact List.mem_map.2 ⟨b, mem_upsert.2 (.inr ⟨hb, fun h => he (hkey.symm.trans h)⟩), hkey⟩

/-- The trial balance is the sum of all amounts. -/
theorem roundedSum_values (h : volume lines ≤ 2 ^ 53) :
    Binary64.roundedSum ((lines.foldl addPosting []).map (·.2)) = (lines.map (·.amount)).sum := by
  obtain ⟨hnodup, -, hentry, hcover⟩ := balanced_foldl h
  have hvalues : (lines.foldl addPosting []).map (·.2) =
      ((lines.foldl addPosting []).map Prod.fst).map (postedTo lines) := by
    rw [List.map_map]
    exact List.map_congr_left fun b hb => hentry b hb
  have hle : ((((lines.foldl addPosting []).map Prod.fst).map (postedTo lines)).map (|·|)).sum ≤ volume lines := by
    rw [← sum_movedOn hnodup hcover, List.map_map]
    exact List.sum_le_sum fun accountId _ => abs_postedTo_le lines accountId
  rw [hvalues, Binary64.roundedSum_eq_sum (Binary64.partialSumsExact_of_sum_abs_le (hle.trans h)),
    sum_postedTo hnodup hcover]

/-! ## The sums over the accounts -/

/-- The exact sum over the accounts of one type. -/
def natural (lines : List Posting) (accounts : List ReportAccount) (type : AccountType) : ℤ :=
  sumWhere (fun a => naturalBalance a.type (postedTo lines a.id)) accounts (·.type = type)

/-- How much moves on the accounts of one type. -/
def moved (lines : List Posting) (accounts : List ReportAccount) (type : AccountType) : ℤ :=
  sumWhere (fun a => movedOn lines a.id) accounts (·.type = type)

/-- Every account is of one of the five types. -/
theorem sum_types (f : ReportAccount → ℤ) (accounts : List ReportAccount) :
    (accounts.map f).sum = sumWhere f accounts (·.type = .asset) + sumWhere f accounts (·.type = .liability) +
      sumWhere f accounts (·.type = .equity) + sumWhere f accounts (·.type = .income) +
      sumWhere f accounts (·.type = .expense) := by
  induction accounts with
  | nil => rfl
  | cons a accounts ih =>
    have hcons : ∀ type, sumWhere f (a :: accounts) (·.type = type) =
        (if a.type = type then f a else 0) + sumWhere f accounts (·.type = type) := fun type => by
      unfold sumWhere
      rw [List.map_cons, List.sum_cons]
    rw [List.map_cons, List.sum_cons, ih, hcons, hcons, hcons, hcons, hcons]
    cases a.type <;> simp only [reduceCtorEq, if_true, if_false] <;> omega

theorem abs_naturalBalance (type : AccountType) (raw : ℤ) : |naturalBalance type raw| = |raw| := by
  unfold naturalBalance
  split
  · rfl
  · exact abs_neg raw

theorem abs_natural_le (lines : List Posting) (accounts : List ReportAccount) (type : AccountType) :
    |natural lines accounts type| ≤ moved lines accounts type := by
  rw [natural, moved, sumWhere_eq_filter, sumWhere_eq_filter]
  refine (List.le_sum_of_subadditive (|·|) abs_zero.le abs_add_le _).trans ?_
  rw [List.map_map]
  exact List.sum_le_sum fun a _ => (abs_naturalBalance _ _).trans_le (abs_postedTo_le lines a.id)

theorem moved_nonneg (lines : List Posting) (accounts : List ReportAccount) (type : AccountType) :
    0 ≤ moved lines accounts type := (abs_nonneg _).trans (abs_natural_le lines accounts type)

/-- The accounts have distinct ids, among them those of all postings, and the volume is within the integers that a
number holds. -/
structure Covered (lines : List Posting) (accounts : List ReportAccount) : Prop where
  nodup : (accounts.map (·.id)).Nodup
  cover : ∀ l ∈ lines, l.accountId ∈ accounts.map (·.id)
  volume : volume lines ≤ 2 ^ 53

theorem Covered.sum_moved (h : Covered lines accounts) :
    moved lines accounts .asset + moved lines accounts .liability + moved lines accounts .equity +
      moved lines accounts .income + moved lines accounts .expense ≤ 2 ^ 53 := by
  refine le_trans (le_of_eq ?_) h.volume
  rw [← sum_movedOn h.nodup h.cover, List.map_map]
  exact (sum_types (fun a => movedOn lines a.id) accounts).symm

/-- A loop over the accounts adds up exactly. -/
theorem Covered.naturalSum_eq (h : Covered lines accounts) (type : AccountType) :
    naturalSum accounts (lines.foldl addPosting []) type = natural lines accounts type := by
  have hbalance := (balanced_foldl h.volume).balance
  have hloop : naturalSum accounts (lines.foldl addPosting []) type =
      Binary64.roundedSum
        ((accounts.filter (·.type = type)).map fun a => naturalBalance a.type (postedTo lines a.id)) := by
    rw [naturalSum, Binary64.roundedSum, List.foldl_map, List.foldl_filter]
    simp only [hbalance, decide_eq_true_eq]
  rw [hloop, natural, sumWhere_eq_filter]
  refine Binary64.roundedSum_eq_sum (Binary64.partialSumsExact_of_sum_abs_le (le_trans ?_ h.volume))
  rw [List.map_map, ← sum_movedOn h.nodup h.cover, List.map_map]
  refine le_trans (List.sum_le_sum fun a _ => (abs_naturalBalance _ _).trans_le (abs_postedTo_le lines a.id)) ?_
  exact (List.filter_sublist.map _).sum_le_sum fun x hx =>
    (List.mem_map.1 hx).elim fun a ha => ha.2 ▸ movedOn_nonneg lines a.id

/-- Debits and credits are equal. -/
theorem Covered.natural_balanced (h : Covered lines accounts) (hzero : (lines.map (·.amount)).sum = 0) :
    natural lines accounts .asset + natural lines accounts .expense = natural lines accounts .liability +
      natural lines accounts .equity + natural lines accounts .income := by
  have hsum := sum_types (fun a => postedTo lines a.id) accounts
  have htotal : (accounts.map fun a => postedTo lines a.id).sum = 0 := by
    rw [← hzero, ← sum_postedTo h.nodup h.cover, List.map_map]
    rfl
  have hdebit : ∀ type ∈ debitNormal, natural lines accounts type =
      sumWhere (fun a => postedTo lines a.id) accounts (·.type = type) := fun type hdebit => by
    rw [natural, sumWhere_eq_filter, sumWhere_eq_filter]
    refine congrArg _ (List.map_congr_left fun a ha => ?_)
    rw [naturalBalance, if_pos ((of_decide_eq_true (List.mem_filter.1 ha).2).symm ▸ hdebit)]
  have hcredit : ∀ type ∉ debitNormal, natural lines accounts type =
      -sumWhere (fun a => postedTo lines a.id) accounts (·.type = type) := fun type hcredit => by
    rw [natural, sumWhere_eq_filter, sumWhere_eq_filter, List.sum_neg, List.map_map]
    refine congrArg _ (List.map_congr_left fun a ha => ?_)
    rw [naturalBalance, if_neg ((of_decide_eq_true (List.mem_filter.1 ha).2).symm ▸ hcredit)]
    rfl
  rw [hdebit .asset (by decide), hdebit .expense (by decide), hcredit .liability (by decide),
    hcredit .equity (by decide), hcredit .income (by decide)]
  omega

end

/-! ## The reports of one set of books -/

section
variable {accounts : List ReportAccount} {entries : List ReportEntry} {period : ReportPeriod}

theorem trialBalance_eq (h : volume (postingsIn entries period) ≤ 2 ^ 53) :
    (accountBalances accounts entries period).trialBalance = ((postingsIn entries period).map (·.amount)).sum := by
  rw [← roundedSum_values h, ← rawBalances_eq]
  rfl

/-- The exact sheet. -/
theorem balanceSheet_eq (h : Covered (postingsIn entries period) accounts) :
    let total := natural (postingsIn entries period) accounts
    balanceSheet accounts entries period =
      { assets := total .asset
        liabilities := total .liability
        equity := total .equity + (total .income - total .expense)
        currentResult := total .income - total .expense
        balances := total .asset = total .liability + (total .equity + (total .income - total .expense)) } := by
  intro total
  have hmoved := h.sum_moved
  have hnonneg := moved_nonneg (postingsIn entries period) accounts
  have habs : ∀ type, |total type| ≤ moved (postingsIn entries period) accounts type :=
    abs_natural_le (postingsIn entries period) accounts
  have hassets := hnonneg .asset
  have hliabilities := abs_le.1 (habs .liability)
  have hequity := abs_le.1 (habs .equity)
  have hincome := abs_le.1 (habs .income)
  have hexpense := abs_le.1 (habs .expense)
  have hcurrent : Binary64.roundInt (total .income - total .expense) = total .income - total .expense :=
    Binary64.roundInt_eq_self (abs_le.2 (by omega))
  have hwith : Binary64.roundInt (total .equity + (total .income - total .expense)) =
      total .equity + (total .income - total .expense) := Binary64.roundInt_eq_self (abs_le.2 (by omega))
  have hsum : Binary64.roundInt (total .liability + (total .equity + (total .income - total .expense))) =
      total .liability + (total .equity + (total .income - total .expense)) :=
    Binary64.roundInt_eq_self (abs_le.2 (by omega))
  unfold balanceSheet
  dsimp only
  rw [rawBalances_eq, h.naturalSum_eq, h.naturalSum_eq, h.naturalSum_eq, h.naturalSum_eq, h.naturalSum_eq, hcurrent,
    hwith, hsum]

/-- The income statement and the sheet compute the result in the same way. -/
theorem netIncome_eq_currentResult (accounts : List ReportAccount) (entries : List ReportEntry)
    (period : ReportPeriod) :
    (incomeStatement accounts entries period).netIncome = (balanceSheet accounts entries period).currentResult := rfl

/-- The sheet balances. -/
theorem balanceSheet_balances (h : Covered (postingsIn entries period) accounts)
    (hzero : ((postingsIn entries period).map (·.amount)).sum = 0) :
    (balanceSheet accounts entries period).assets =
        (balanceSheet accounts entries period).liabilities + (balanceSheet accounts entries period).equity ∧
      (balanceSheet accounts entries period).balances = true := by
  have hbalanced := h.natural_balanced hzero
  rw [balanceSheet_eq h]
  exact ⟨by dsimp only; omega, decide_eq_true (by omega)⟩

/-! ## Periods -/

theorem postedTo_postingsIn (entries : List ReportEntry) (period : ReportPeriod) (accountId : String) :
    postedTo (postingsIn entries period) accountId =
      sumWhere (fun e => postedTo e.lines accountId) entries fun e =>
        e.status = .posted ∧ inPeriod e.date period = true := by
  rw [sumWhere_eq_filter, postingsIn]
  simp only [Bool.decide_and, Bool.decide_eq_true]
  induction entries.filter fun e => decide (e.status = .posted) && inPeriod e.date period with
  | nil => rfl
  | cons e es ih =>
    rw [List.flatMap_cons, List.map_cons, List.sum_cons, ← ih]
    unfold postedTo sumWhere
    rw [List.map_append, List.sum_append]

/-- As much has been earned as spent, over all days. -/
def NoResult (accounts : List ReportAccount) (entries : List ReportEntry) : Prop :=
  natural (postingsIn entries ⟨none, none⟩) accounts .income =
    natural (postingsIn entries ⟨none, none⟩) accounts .expense

/-- The two parts of a period. -/
structure Splits (entries : List ReportEntry) (period first second : ReportPeriod) : Prop where
  either : ∀ e ∈ entries, inPeriod e.date period = true ↔ inPeriod e.date first = true ∨ inPeriod e.date second = true
  apart : ∀ e ∈ entries, inPeriod e.date first = true → ¬ inPeriod e.date second = true

/-- What is posted in a period is posted in one of its parts. -/
theorem Splits.natural {first second : ReportPeriod} (h : Splits entries period first second)
    (accounts : List ReportAccount) (type : AccountType) :
    natural (postingsIn entries period) accounts type =
      natural (postingsIn entries first) accounts type + natural (postingsIn entries second) accounts type := by
  have hposted : ∀ accountId, postedTo (postingsIn entries period) accountId =
      postedTo (postingsIn entries first) accountId + postedTo (postingsIn entries second) accountId := by
    intro accountId
    rw [postedTo_postingsIn, postedTo_postingsIn, postedTo_postingsIn]
    refine sumWhere_or (fun e he => ?_) fun e he hfirst hsecond => h.apart e he hfirst.2 hsecond.2
    rw [h.either e he, and_or_left]
  have hbalance : ∀ (type : AccountType) (a b : ℤ),
      naturalBalance type (a + b) = naturalBalance type a + naturalBalance type b := fun type a b => by
    unfold naturalBalance
    split <;> omega
  unfold Kumiko.natural
  rw [sumWhere_eq_filter, sumWhere_eq_filter, sumWhere_eq_filter, ← List.sum_map_add]
  refine congrArg _ (List.map_congr_left fun a _ => ?_)
  rw [hposted, hbalance]

theorem inPeriod_upTo {date last : String} : inPeriod date ⟨none, some last⟩ = true ↔ ¬ last < date := by
  simp [inPeriod]

theorem inPeriod_within {date first last : String} :
    inPeriod date ⟨some first, some last⟩ = true ↔ ¬ date < first ∧ ¬ last < date := by
  simp [inPeriod]

/-- The days up to a period's end are those up to the day before it and those in it. -/
theorem splits_days {before last : PlainDate} (hdates : ∀ e ∈ entries, ∃ d : PlainDate, e.date = d.text)
    (hbefore : before.FourDigitYear) (hfrom : before.next.FourDigitYear) (hlast : last.FourDigitYear)
    (hle : ¬ last.Before before.next) :
    Splits entries ⟨none, some last.text⟩ ⟨none, some before.text⟩ ⟨some before.next.text, some last.text⟩ := by
  have hlt : before.text < last.text :=
    (PlainDate.text_lt_text_iff hbefore hlast).2 (PlainDate.before_next_iff.not_left.1 hle)
  have hcases : ∀ e ∈ entries, e.date < before.next.text ↔ ¬ before.text < e.date := fun e he => by
    obtain ⟨d, hd⟩ := hdates e he
    rw [hd]
    exact PlainDate.text_lt_next_iff hbefore hfrom
  constructor
  · intro e he
    have hup : ¬ before.text < e.date → ¬ last.text < e.date := fun h h' => h (lt_trans hlt h')
    rw [inPeriod_upTo, inPeriod_upTo, inPeriod_within, hcases e he, not_not]
    exact ⟨fun h => (em _).symm.imp_right fun h' => ⟨h', h⟩, fun h => h.elim hup (·.2)⟩
  · intro e he hfirst hsecond
    rw [inPeriod_upTo] at hfirst
    rw [inPeriod_within, hcases e he, not_not] at hsecond
    exact hfirst hsecond.1

end

/-! ## The books of a run -/

open Transition

/-- The tenant has an account whose id is that text. -/
def HasAccount (accounts : List LedgerAccount) (tenantId accountId : String) : Prop :=
  ∃ a ∈ accounts, a.id = accountId ∧ a.tenantId = tenantId

/-- The lines balance, and each names an account of the tenant. -/
structure Kept (accounts : List LedgerAccount) (tenantId : String) (lines : List Posting) : Prop where
  sum : (lines.map (·.amount)).sum = 0
  account : ∀ l ∈ lines, HasAccount accounts tenantId l.accountId

/-- What a tenant's posted entries move. -/
def postedVolume (entries : List LedgerEntry) (tenantId : String) : ℤ :=
  volume ((entries.filter fun e => e.tenantId = tenantId && e.status = .posted).flatMap (·.lines))

namespace Books

variable {n : ℕ} {s s' : Books n} {k : Fin n} {a : LedgerAct n} {accounts : List LedgerAccount} {tenantId : String}

/-- What the next statement finds is of the client's tenant, and an account is found under the id that the posting has.
A draft may name what it likes. -/
def FindsOwn (s : Books n) (k : Fin n) : Prop :=
  match (s.clients k).phase with
  | .createAccounts p (accountId :: _) => p.status ≠ some .draft →
    ∀ account ∈ s.findAccount (s.clients k).tenantId accountId,
      account.id = accountId ∧ account.tenantId = (s.clients k).tenantId
  | .scheduleAccounts _ _ (accountId :: _) =>
    ∀ account ∈ s.findAccount (s.clients k).tenantId accountId,
      account.id = accountId ∧ account.tenantId = (s.clients k).tenantId
  | .original p => ∀ entry ∈ s.findEntry k p.id, entry.status = .posted → entry.tenantId = (s.clients k).tenantId
  | _ => True

instance (s : Books n) (k : Fin n) : Decidable (s.FindsOwn k) := by
  unfold FindsOwn
  split <;> infer_instance

/-- The sums of a payload to be posted stay exact, a command finds only what is of its tenant and under the id that a
posting has, an account keeps its tenant, and a tenant's posted entries move no more than a number holds exactly. -/
def ReportsInput (s : Books n) : LedgerAct n → Prop
  | .command _ (.create p) => p.status ≠ some .draft → Binary64.PartialSumsExact (p.lines.map (·.amount))
  | .run k _ => s.FindsOwn k
  | .putAccount account => ∀ a ∈ s.accounts, a.id = account.id → a.tenantId = account.tenantId
  | .commit k => ∀ e ∈ s.view k, postedVolume (s.view k) e.tenantId ≤ 2 ^ 53
  | _ => True

instance (s : Books n) (a : LedgerAct n) : Decidable (s.ReportsInput a) :=
  match a with
  | .command _ (.create _) => inferInstanceAs (Decidable (_ → Binary64.PartialSumsExact _))
  | .command _ (.confirm _) => .isTrue trivial
  | .command _ (.reverse _) => .isTrue trivial
  | .run k _ => inferInstanceAs (Decidable (s.FindsOwn k))
  | .beginTx .. => .isTrue trivial
  | .fail .. => .isTrue trivial
  | .commit _ => inferInstanceAs (Decidable (∀ e ∈ _, _))
  | .rollback .. => .isTrue trivial
  | .putAccount _ => inferInstanceAs (Decidable (∀ a ∈ _, _ → _))
  | .putSchedule .. => .isTrue trivial

/-- What is known of the lines that a client is about to post, if the accounts still to be looked up are found. -/
def Looked (accounts : List LedgerAccount) (tenantId : String) : LedgerPhase → Prop
  | .createAccounts p rest => p.status ≠ some .draft → (p.lines.map (·.amount)).sum = 0 ∧
      ∀ l ∈ p.lines, l.accountId ∈ rest ∨ HasAccount accounts tenantId l.accountId
  | .scheduleAccounts _ schedule rest =>
      ∀ text ∈ [schedule.debitAccountId, schedule.creditAccountId], text ∈ rest ∨ HasAccount accounts tenantId text
  | .candidates _ schedule | .stornos _ schedule _ =>
      ∀ text ∈ [schedule.debitAccountId, schedule.creditAccountId], HasAccount accounts tenantId text
  | .reversals _ original => Kept accounts tenantId original.lines
  | .insert e => Kept accounts tenantId e.lines
  | _ => True

structure ReportsInv (s : Books n) : Prop where
  accounts : (s.accounts.map (·.id)).Nodup
  entries : ∀ e ∈ s.entries, e.status = .posted → Kept s.accounts e.tenantId e.lines
  own : ∀ k, ∀ e ∈ (s.clients k).own, e.status = .posted → Kept s.accounts e.tenantId e.lines
  phase : ∀ k, Looked s.accounts (s.clients k).tenantId (s.clients k).phase
  volume : ∀ tenantId, postedVolume s.entries tenantId ≤ 2 ^ 53

theorem ReportsInv.setClient (h : ReportsInv s) {cl : LedgerClient}
    (hown : ∀ e ∈ cl.own, e.status = .posted → Kept s.accounts e.tenantId e.lines)
    (hphase : Looked s.accounts cl.tenantId cl.phase) : ReportsInv (s.setClient k cl) where
  accounts := h.accounts
  entries := h.entries
  own j := by
    change ∀ e ∈ (Function.update s.clients k cl j).own, _
    rcases eq_or_ne j k with rfl | hne
    · rwa [Function.update_self]
    · rw [Function.update_of_ne hne]
      exact h.own j
  phase j := by
    change Looked s.accounts (Function.update s.clients k cl j).tenantId (Function.update s.clients k cl j).phase
    rcases eq_or_ne j k with rfl | hne
    · rwa [Function.update_self]
    · rw [Function.update_of_ne hne]
      exact h.phase j
  volume := h.volume

theorem ReportsInv.view (h : ReportsInv s) :
    ∀ e ∈ s.view k, e.status = .posted → Kept s.accounts e.tenantId e.lines := fun e he =>
  (List.mem_append.1 he).elim (h.entries e) (h.own k e)

/-- A text that has been looked up is the id of an account of the tenant. -/
theorem found {text accountId tenantId : String} {rest : List String} {account : LedgerAccount}
    (hfound : s.findAccount tenantId accountId = some account)
    (hown : account.id = accountId ∧ account.tenantId = tenantId)
    (h : text ∈ accountId :: rest ∨ HasAccount s.accounts tenantId text) :
    text ∈ rest ∨ HasAccount s.accounts tenantId text := by
  rcases h with hmem | hhas
  · rcases List.mem_cons.1 hmem with rfl | hmem
    · exact .inr ⟨account, List.mem_of_find?_eq_some hfound, hown⟩
    · exact .inl hmem
  · exact .inr hhas

theorem Kept.negated {lines : List Posting}
    (h : Kept accounts tenantId lines) : Kept accounts tenantId (negated lines) where
  sum := by rw [sum_negated, h.sum, neg_zero]
  account l hl := by
    obtain ⟨l', hl', rfl⟩ := List.mem_map.1 hl
    exact h.account l' hl'

theorem kept_booking {p : ConfirmSchedulePeriodPayload} {schedule : LedgerSchedule}
    (h : ∀ text ∈ [schedule.debitAccountId, schedule.creditAccountId], HasAccount accounts tenantId text) :
    Kept accounts tenantId (bookingEntry p schedule).lines where
  sum := by
    change p.amount.getD schedule.amount + (-p.amount.getD schedule.amount + 0) = 0
    rw [add_zero, add_neg_cancel]
  account l hl := by
    rcases List.mem_cons.1 hl with rfl | hl
    · exact h _ List.mem_cons_self
    · rw [List.mem_singleton.1 hl]
      exact h _ (List.mem_cons_of_mem _ List.mem_cons_self)

theorem ReportsInv.advances {phase : LedgerPhase} (h : ReportsInv s) (hok : s.FindsOwn k)
    (ha : s.Advances k (s.clients k).phase phase) : Looked s.accounts (s.clients k).tenantId phase := by
  have hphase := h.phase k
  unfold FindsOwn at hok
  generalize (s.clients k).phase = before at ha hphase hok
  cases ha with
  | createAccount hfound =>
    intro hposted
    obtain ⟨hsum, hall⟩ := hphase hposted
    exact ⟨hsum, fun l hl => found hfound (hok hposted _ hfound) (hall l hl)⟩
  | schedule _ _ => exact fun _ hmem => .inl hmem
  | scheduleAccount hfound => exact fun text hmem => found hfound (hok _ hfound) (hphase text hmem)
  | candidates => exact hphase
  | unbooked _ => exact kept_booking hphase
  | original hfound hposted => exact hok _ hfound hposted ▸ h.view _ (List.mem_of_find?_eq_some hfound) hposted
  | unreversed _ => exact Kept.negated hphase

theorem looked_start {call : LedgerCall} (hacc : call.accepted = true)
    (hok : ∀ p, call = .create p → p.status ≠ some .draft → Binary64.PartialSumsExact (p.lines.map (·.amount))) :
    Looked accounts tenantId call.start := by
  cases call with
  | confirm p => trivial
  | reverse p => trivial
  | create p =>
    intro hposted
    have hschema : createTransactionPayloadSchema p = true := hacc
    have hzero := of_decide_eq_true (Bool.and_eq_true_iff.1 (Bool.and_eq_true_iff.1 hschema).1).2
    refine ⟨by rwa [Binary64.roundedSum_eq_sum (hok p rfl hposted)] at hzero, fun l hl => .inl ?_⟩
    exact List.mem_eraseDups.2 (List.mem_map_of_mem hl)

/-- What is booked as posted has been looked up. -/
theorem Booking.kept {phase : LedgerPhase} {e : EntryData}
    (hb : Booking phase e) (hphase : Looked accounts tenantId phase) (hposted : e.status = .posted) :
    Kept accounts tenantId e.lines := by
  cases hb with
  | insert => exact hphase
  | @manual p =>
    have hstatus : p.status ≠ some .draft := fun h => by
      rw [manualEntry, h] at hposted
      cases hposted
    obtain ⟨hsum, hall⟩ := hphase hstatus
    exact ⟨hsum, fun l hl => (hall l hl).resolve_left List.not_mem_nil⟩

/-- A put that leaves every account in its tenant leaves the tenants their accounts. -/
theorem hasAccount_put {account : LedgerAccount} {tenantId accountId : String}
    (hkeep : ∀ a ∈ accounts, a.id = account.id → a.tenantId = account.tenantId)
    (h : HasAccount accounts tenantId accountId) :
    HasAccount (account :: accounts.filter (·.id ≠ account.id)) tenantId accountId := by
  obtain ⟨a, ha, hid, htenant⟩ := h
  by_cases he : a.id = account.id
  · exact ⟨account, List.mem_cons_self, he ▸ hid, hkeep a ha he ▸ htenant⟩
  · exact ⟨a, List.mem_cons_of_mem _ (List.mem_filter.2 ⟨ha, decide_eq_true he⟩), hid, htenant⟩

theorem Kept.mono {accounts accounts' : List LedgerAccount} {lines : List Posting}
    (hmono : ∀ accountId, HasAccount accounts tenantId accountId → HasAccount accounts' tenantId accountId)
    (h : Kept accounts tenantId lines) : Kept accounts' tenantId lines :=
  ⟨h.sum, fun l hl => hmono _ (h.account l hl)⟩

theorem Looked.mono {accounts accounts' : List LedgerAccount} {phase : LedgerPhase}
    (hmono : ∀ accountId, HasAccount accounts tenantId accountId → HasAccount accounts' tenantId accountId)
    (h : Looked accounts tenantId phase) : Looked accounts' tenantId phase := by
  cases phase with
  | createAccounts p rest => exact fun hp => ⟨(h hp).1, fun l hl => ((h hp).2 l hl).imp_right (hmono _)⟩
  | scheduleAccounts p schedule rest => exact fun text ht => (h text ht).imp_right (hmono _)
  | candidates p schedule => exact fun text ht => hmono _ (h text ht)
  | stornos p schedule candidates => exact fun text ht => hmono _ (h text ht)
  | reversals p original => exact Kept.mono hmono h
  | insert e => exact Kept.mono hmono h
  | idle | schedule p | original p => trivial

theorem postedVolume_of_notMem {entries : List LedgerEntry} (h : ∀ e ∈ entries, e.tenantId ≠ tenantId) :
    postedVolume entries tenantId = 0 := by
  have hnone : entries.filter (fun e => e.tenantId = tenantId && e.status = .posted) = [] :=
    List.filter_eq_nil_iff.2 fun e he => by simp [h e he]
  rw [postedVolume, hnone]
  rfl

theorem ReportsInv.step (h : ReportsInv s) (hok : s.ReportsInput a) (hs : s.step a = some s') : ReportsInv s' := by
  cases BooksStep.of_step hs with
  | beginTx => exact h.setClient (fun _ he => nomatch he) trivial
  | @command k call _ hacc =>
    refine h.setClient (h.own _) (looked_start hacc fun p hp => ?_)
    subst hp
    exact hok
  | fail => exact h.setClient (h.own _) trivial
  | rollback => exact h.setClient (fun _ he => nomatch he) trivial
  | @putAccount account =>
    have hmono : ∀ tenantId accountId, HasAccount s.accounts tenantId accountId →
        HasAccount (account :: s.accounts.filter (·.id ≠ account.id)) tenantId accountId :=
      fun _ _ => hasAccount_put hok
    exact
      { accounts := by
          refine List.nodup_cons.2 ⟨fun hmem => ?_, h.accounts.sublist (List.filter_sublist.map _)⟩
          obtain ⟨a, ha, hid⟩ := List.mem_map.1 hmem
          exact of_decide_eq_true (List.mem_filter.1 ha).2 hid
        entries := fun e he hp => Kept.mono (hmono _) (h.entries e he hp)
        own := fun k e he hp => Kept.mono (hmono _) (h.own k e he hp)
        phase := fun k => Looked.mono (hmono _) (h.phase k)
        volume := h.volume }
  | putSchedule => exact ⟨h.accounts, h.entries, h.own, h.phase, h.volume⟩
  | @commit k _ =>
    have hclosed : ReportsInv (s.setClient k .closed) := h.setClient (fun _ he => nomatch he) trivial
    refine ⟨h.accounts, fun e he => h.view e he, hclosed.own, hclosed.phase, fun tenantId => ?_⟩
    by_cases hex : ∃ e ∈ s.view k, e.tenantId = tenantId
    · obtain ⟨e, he, rfl⟩ := hex
      exact hok e he
    · exact (postedVolume_of_notMem fun e he ht => hex ⟨e, he, ht⟩).trans_le (by decide)
  | @run k id _ hrun =>
    cases hrun with
    | giveUp => exact h.setClient (h.own k) trivial
    | goto ha => exact h.setClient (h.own k) (h.advances hok ha)
    | lock hp _ =>
      have hphase := h.phase k
      rw [hp] at hphase
      exact h.setClient (h.own k) fun text ht => (hphase text ht).resolve_left List.not_mem_nil
    | alreadyBooked => exact h.setClient (by simpa using h.own k) trivial
    | insert hb _ =>
      refine h.setClient (fun e he hp => ?_) trivial
      rcases List.mem_append.1 he with hold | hnew
      · exact h.own k e hold hp
      · obtain rfl := List.mem_singleton.1 hnew
        exact hb.kept (h.phase k) hp

theorem ReportsInv.of_run (hr : Run Books.step ReportsInput initial s) : ReportsInv s := by
  refine hr.invariant (I := ReportsInv) ?_ fun _ _ _ hi hok hs => hi.step hok hs
  exact ⟨List.nodup_nil, fun _ he => (nomatch he), fun _ _ he => (nomatch he), fun _ => trivial,
    fun _ => (postedVolume_of_notMem fun _ he => absurd he List.not_mem_nil).trans_le (by decide)⟩

theorem volume_nonneg (lines : List Posting) : 0 ≤ volume lines :=
  List.sum_nonneg fun _ hx => (List.mem_map.1 hx).elim fun _ hl => hl.2 ▸ abs_nonneg _

theorem volume_flatMap (rows : List LedgerEntry) :
    volume (rows.flatMap (·.lines)) = (rows.map fun e => volume e.lines).sum := by
  induction rows with
  | nil => rfl
  | cons e rows ih => rw [List.flatMap_cons, volume_append, ih, List.map_cons, List.sum_cons]

theorem sum_flatMap_eq_zero {rows : List LedgerEntry} (h : ∀ e ∈ rows, (e.lines.map (·.amount)).sum = 0) :
    (rows.flatMap fun e => e.lines.map (·.amount)).sum = 0 := by
  induction rows with
  | nil => rfl
  | cons e rows ih =>
    rw [List.flatMap_cons, List.sum_append, h e List.mem_cons_self,
      ih fun e' he => h e' (List.mem_cons_of_mem _ he), add_zero]

/-- The rows behind the postings of a report. -/
theorem postingsIn_toEntries (columns : ReportColumns) (rows : List LedgerEntry) (period : ReportPeriod) :
    postingsIn (toEntries columns rows) period =
      (rows.filter fun e => e.status = .posted && inPeriod (columns.date e.date).text period).flatMap (·.lines) := by
  rw [postingsIn, toEntries, List.filter_map, List.flatMap_map]
  rfl

/-- The postings that a report counts have their accounts among those that it reads. -/
theorem ReportsInv.covered (h : ReportsInv s) (columns : ReportColumns) (tenantId : String) (period : ReportPeriod) :
    Covered (postingsIn (s.loadBooks columns tenantId).2 period) (s.loadBooks columns tenantId).1 ∧
      ((postingsIn (s.loadBooks columns tenantId).2 period).map (·.amount)).sum = 0 := by
  have hkept : ∀ e ∈ (s.entries.filter (·.tenantId = tenantId)).filter fun e =>
      e.status = .posted && inPeriod (columns.date e.date).text period, Kept s.accounts tenantId e.lines := by
    intro e he
    obtain ⟨he, hcounts⟩ := List.mem_filter.1 he
    obtain ⟨he, htenant⟩ := List.mem_filter.1 he
    exact of_decide_eq_true htenant ▸ h.entries e he (of_decide_eq_true (Bool.and_eq_true_iff.1 hcounts).1)
  rw [loadBooks, postingsIn_toEntries]
  refine ⟨⟨?_, fun l hl => ?_, ?_⟩, ?_⟩
  · rw [toAccounts, List.map_map]
    exact h.accounts.sublist (List.filter_sublist.map _)
  · obtain ⟨e, he, hl⟩ := List.mem_flatMap.1 hl
    obtain ⟨a, ha, hid, htenant⟩ := (hkept e he).account l hl
    rw [toAccounts, List.map_map]
    exact List.mem_map.2 ⟨a, List.mem_filter.2 ⟨ha, decide_eq_true htenant⟩, hid⟩
  · refine le_trans ?_ (h.volume tenantId)
    rw [postedVolume, volume_flatMap, volume_flatMap, List.filter_filter]
    refine (List.Sublist.map _ (List.monotone_filter_right _ fun e hcounts => ?_)).sum_le_sum fun x hx => ?_
    · obtain ⟨hcounts, htenant⟩ := Bool.and_eq_true_iff.1 hcounts
      exact Bool.and_eq_true_iff.2 ⟨htenant, (Bool.and_eq_true_iff.1 hcounts).1⟩
    · obtain ⟨e, -, rfl⟩ := List.mem_map.1 hx
      exact volume_nonneg e.lines
  · rw [List.map_flatMap]
    exact sum_flatMap_eq_zero fun e he => (hkept e he).sum

/-- What a query answers is the report over all days. -/
theorem answer_eq {α : Type} {compute : List ReportAccount → List ReportEntry → ReportPeriod → α}
    {columns : ReportColumns} {tenantId type : String} {user : List (String × QueryValue)} {payload : QueryValue}
    {answer : α} (h : executeQuery compute s columns tenantId user type payload = some answer) :
    answer = compute (s.loadBooks columns tenantId).1 (s.loadBooks columns tenantId).2 ⟨none, none⟩ := by
  rw [executeQuery_eq] at h
  obtain ⟨_, _, hcompute⟩ := Option.map_eq_some_iff.1 h
  exact hcompute.symm

/-- The reports of every tenant agree, for every period, where the period ends are days of four-digit years. The queries
report over all days, whatever they are asked: a result of a period is the difference of two sheets where it is 0. -/
theorem reports_agree_of_run (s : Books n) (hr : Run step ReportsInput initial s) (columns : ReportColumns)
    (tenantId : String) :
    let books := s.loadBooks columns tenantId
    (∀ period, (accountBalances books.1 books.2 period).trialBalance = 0) ∧
    (∀ period, (balanceSheet books.1 books.2 period).assets =
        (balanceSheet books.1 books.2 period).liabilities + (balanceSheet books.1 books.2 period).equity ∧
      (balanceSheet books.1 books.2 period).balances = true) ∧
    (∀ before last : PlainDate, ¬ last.Before before.next →
      before.FourDigitYear → before.next.FourDigitYear → last.FourDigitYear →
      (incomeStatement books.1 books.2 ⟨some before.next.text, some last.text⟩).netIncome =
        (balanceSheet books.1 books.2 ⟨none, some last.text⟩).currentResult -
          (balanceSheet books.1 books.2 ⟨none, some before.text⟩).currentResult) ∧
    (∀ user payload report, s.reportBalances columns tenantId user payload = some report → report.trialBalance = 0) ∧
    (∀ user payload sheet, s.reportBalanceSheet columns tenantId user payload = some sheet →
      sheet.assets = sheet.liabilities + sheet.equity ∧ sheet.balances = true) ∧
    ∀ user within upToLast upToBefore statement sheet sheetBefore,
      s.reportIncomeStatement columns tenantId user within = some statement →
      s.reportBalanceSheet columns tenantId user upToLast = some sheet →
      s.reportBalanceSheet columns tenantId user upToBefore = some sheetBefore →
      (statement.netIncome = sheet.currentResult - sheetBefore.currentResult ↔ NoResult books.1 books.2) := by
  intro books
  have hcovered : ∀ period, Covered (postingsIn books.2 period) books.1 ∧
      ((postingsIn books.2 period).map (·.amount)).sum = 0 := (ReportsInv.of_run hr).covered columns tenantId
  have htrial : ∀ period, (accountBalances books.1 books.2 period).trialBalance = 0 := fun period =>
    (trialBalance_eq (hcovered period).1.volume).trans (hcovered period).2
  have hsheet : ∀ period, (balanceSheet books.1 books.2 period).assets =
      (balanceSheet books.1 books.2 period).liabilities + (balanceSheet books.1 books.2 period).equity ∧
        (balanceSheet books.1 books.2 period).balances = true := fun period =>
    balanceSheet_balances (hcovered period).1 (hcovered period).2
  refine ⟨htrial, hsheet, ?_, fun _ _ _ h => answer_eq h ▸ htrial _, fun _ _ _ h => answer_eq h ▸ hsheet _, ?_⟩
  · intro before last hle hbefore hfrom hlast
    have hdates : ∀ e ∈ books.2, ∃ d : PlainDate, e.date = d.text := fun e he => by
      obtain ⟨r, -, rfl⟩ := List.mem_map.1 he
      exact ⟨_, rfl⟩
    have hsplits := splits_days hdates hbefore hfrom hlast hle
    rw [netIncome_eq_currentResult, balanceSheet_eq (hcovered _).1, balanceSheet_eq (hcovered _).1,
      balanceSheet_eq (hcovered _).1]
    dsimp only
    rw [hsplits.natural, hsplits.natural]
    omega
  · intro _ _ _ _ _ _ _ hstatement hlast hbefore
    rw [answer_eq hstatement, answer_eq hlast, answer_eq hbefore, sub_self, netIncome_eq_currentResult,
      balanceSheet_eq (hcovered _).1]
    exact sub_eq_zero

/-! ### Rents -/

/-- The bank is an asset and the rent an expense; every entry is of the middle of January. -/
def rentColumns : ReportColumns where
  name _ := ""
  type a := if a.id = bankId then .asset else .expense
  date _ := { year := 2026, month := 1, day := 15 }

def newYearsEve : PlainDate := { year := 2025, month := 12, day := 31 }

def endOfJanuary : PlainDate := { year := 2026, month := 1, day := 31 }

theorem reports_agree_of_run_rent : ∃ s : Books 1, Run step ReportsInput initial s ∧ s.entries.length = 3 ∧
    (accountBalances (s.loadBooks rentColumns "tenant-a").1 (s.loadBooks rentColumns "tenant-a").2
      ⟨none, none⟩).trialBalance = 0 ∧
    (balanceSheet (s.loadBooks rentColumns "tenant-a").1 (s.loadBooks rentColumns "tenant-a").2
      ⟨none, none⟩).balances = true ∧
    (incomeStatement (s.loadBooks rentColumns "tenant-a").1 (s.loadBooks rentColumns "tenant-a").2
        ⟨some newYearsEve.next.text, some endOfJanuary.text⟩).netIncome =
      (balanceSheet (s.loadBooks rentColumns "tenant-a").1 (s.loadBooks rentColumns "tenant-a").2
          ⟨none, some endOfJanuary.text⟩).currentResult -
        (balanceSheet (s.loadBooks rentColumns "tenant-a").1 (s.loadBooks rentColumns "tenant-a").2
          ⟨none, some newYearsEve.text⟩).currentResult := by
  obtain ⟨s, hr, hlength⟩ := exists_run_of_execOk step (fun (s : Books 1) a => decide (s.ReportsInput a)) initial
    (openBooks (rentSchedule bankId rentId) ++ inOneTx 0 (createEntry none) 3 (entryId "1") ++
      inOneTx 0 confirmJanuary 7 (entryId "2") ++ inOneTx 0 (reverseEntry (entryId "2")) 3 (entryId "3"))
    (fun s => s.entries.length = 3) (fun _ _ hb => of_decide_eq_true hb) (by decide +kernel) (by decide +kernel)
  obtain ⟨htrial, hsheet, hresult, -⟩ := reports_agree_of_run s hr rentColumns "tenant-a"
  exact ⟨s, hr, of_decide_eq_true hlength, htrial _, (hsheet _).2,
    hresult newYearsEve endOfJanuary (by decide) (by decide) (by decide) (by decide)⟩

/-- The rent as income. -/
def rentIncomeColumns : ReportColumns :=
  { rentColumns with type := fun a => if a.id = bankId then .asset else .income }

def endOfFebruary : PlainDate := { year := 2026, month := 2, day := 28 }

/-- A rent booked on an account of the system tenant is not on the sheet of the tenant, and the income statement of
February has the rent of January. -/
theorem not_reports_agree :
    (¬ ∀ s : Books 1, Run step (fun _ _ => True) initial s → ∀ columns tenantId user payload sheet,
      s.reportBalanceSheet columns tenantId user payload = some sheet →
      sheet.assets = sheet.liabilities + sheet.equity ∧ sheet.balances = true) ∧
    ¬ ∀ s : Books 1, Run step (fun _ _ => True) initial s → ∀ columns tenantId user, ∀ before last : PlainDate,
      ¬ last.Before before.next → ∀ statement sheet sheetBefore,
      s.reportIncomeStatement columns tenantId user
        (ReportPeriod.payload ⟨some before.next.text, some last.text⟩) = some statement →
      s.reportBalanceSheet columns tenantId user (ReportPeriod.payload ⟨none, some last.text⟩) = some sheet →
      s.reportBalanceSheet columns tenantId user (ReportPeriod.payload ⟨none, some before.text⟩) = some sheetBefore →
      statement.netIncome = sheet.currentResult - sheetBefore.currentResult := by
  constructor
  · intro hclaim
    obtain ⟨s, hr, hs⟩ := exists_run_of_exec step (initial : Books 1)
      ([.putAccount ⟨bankId, "tenant-a"⟩, .putAccount ⟨rentId, systemTenantId⟩] ++
        inOneTx 0 (createEntry none) 3 (entryId "1"))
      (fun s => (s.reportBalanceSheet rentColumns "tenant-a" [] (.object [])).map (·.balances) = some false)
      (by decide +kernel)
    obtain ⟨sheet, hsheet, hoff⟩ := Option.map_eq_some_iff.1 (of_decide_eq_true hs)
    exact absurd ((hclaim s hr _ _ _ _ sheet hsheet).2.symm.trans hoff) (by decide)
  · intro hclaim
    obtain ⟨s, hr, hs⟩ := exists_run_of_exec step (initial : Books 1)
      (openBooks (rentSchedule bankId rentId) ++ inOneTx 0 (createEntry none) 3 (entryId "1"))
      (fun s =>
        (s.reportIncomeStatement rentIncomeColumns "tenant-a" []
          (ReportPeriod.payload ⟨some endOfJanuary.next.text, some endOfFebruary.text⟩)).map (·.netIncome) = some 700 ∧
        (s.reportBalanceSheet rentIncomeColumns "tenant-a" []
          (ReportPeriod.payload ⟨none, some endOfFebruary.text⟩)).map (·.currentResult) = some 700 ∧
        (s.reportBalanceSheet rentIncomeColumns "tenant-a" []
          (ReportPeriod.payload ⟨none, some endOfJanuary.text⟩)).map (·.currentResult) = some 700) (by decide +kernel)
    obtain ⟨hstatement, hlast, hbefore⟩ := of_decide_eq_true hs
    obtain ⟨statement, hstatement, hnet⟩ := Option.map_eq_some_iff.1 hstatement
    obtain ⟨sheet, hsheet, hresult⟩ := Option.map_eq_some_iff.1 hlast
    obtain ⟨sheetBefore, hsheetBefore, hresultBefore⟩ := Option.map_eq_some_iff.1 hbefore
    have hperiod := hclaim s hr _ _ _ endOfJanuary endOfFebruary (by decide) statement sheet sheetBefore hstatement
      hsheet hsheetBefore
    rw [hnet, hresult, hresultBefore] at hperiod
    exact absurd hperiod (by decide)

end Books

end Kumiko
