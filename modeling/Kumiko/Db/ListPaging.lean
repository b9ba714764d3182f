import Mathlib.Data.List.Sort
import Mathlib.Data.Rat.Defs
import Kumiko.Library.KeysetPaging
import Kumiko.Library.ThreeValued

/-!
# Keyset pagination of an entity list

`list` reads one page in the requested order; a full page gives a cursor that carries the last row's id and the
*text* of its sort value. The text is made from what the driver returns, a `Date` of whole milliseconds for a
`timestamptz` that counts microseconds, so the boundary may lie before the row that ended the page.
`keyset_exact_iff` is the exact condition on the table and the limit.
-/

namespace Kumiko

/-! ## The requested order -/

/-- Reference: `SortNulls` (`EntityDefinition`). -/
inductive SortNulls where
  | first
  | last
  deriving DecidableEq

/-- A resolved sort, by a column or by an expression: the two differ in where a row's sort value is read
from, and a `PageRow` has it in one place. Reference: `SortedListSort`. -/
structure SortedListSort where
  descending : Bool
  nulls : Option SortNulls

/-- Reference: `ListSort`. -/
inductive ListSort where
  | unsorted
  | sorted (sort : SortedListSort)

/-- Without a declared placement Postgres puts nulls last ascending and first descending.
Reference: `sortsNullsFirst`. -/
def sortsNullsFirst (sort : SortedListSort) : Bool :=
  match sort.nulls with
  | none => sort.descending
  | some nulls => nulls == .first

/-- What the list query reads of a row: its id and the value it is sorted by. -/
structure PageRow (ι V : Type*) where
  id : ι
  sortValue : Option V
  deriving DecidableEq

/-- The rows that match the request's conditions other than the cursor; the id is the primary key. -/
structure PageTable (ι V : Type*) where
  rows : List (PageRow ι V)
  ids_nodup : (rows.map (·.id)).Nodup

variable {ι V : Type*} [LinearOrder ι] [LinearOrder V]

/-- The comparison that leads further down the list. -/
def SortedListSort.beyond (sort : SortedListSort) (v w : V) : Bool :=
  if sort.descending then w < v else v < w

/-- `a` comes before `b` in the requested order, ties broken by id.
Reference: `renderListOrderBy`. -/
def before : ListSort → PageRow ι V → PageRow ι V → Bool
  | .unsorted, a, b => a.id < b.id
  | .sorted sort, a, b =>
    match a.sortValue, b.sortValue with
    | none, none => a.id < b.id
    | none, some _ => sortsNullsFirst sort
    | some _, none => !sortsNullsFirst sort
    | some v, some w => sort.beyond v w || (v == w && a.id < b.id)

/-- `ORDER BY <sort> <direction> [NULLS FIRST | LAST], id ASC`. Reference: `renderListOrderBy`. -/
def orderBy (sort : ListSort) (rows : List (PageRow ι V)) : List (PageRow ι V) :=
  rows.insertionSort fun a b => before sort b a = false

/-! ## The cursor -/

/-- The JavaScript value a driver returns for a column; `undefined` is a column the row does not have, and
`object` a parsed JSON value, by its `JSON.stringify`. -/
inductive DriverValue where
  | undefined
  | null
  | string (s : String)
  | number (n : ℚ)
  | bigint (n : ℤ)
  | boolean (b : Bool)
  | date (ms : ℤ)
  | object (json : String)

/-- The texts `toCursorSortText` makes, kept apart by the form they are written in: `iso` is
`Date.prototype.toISOString`, which has three digits behind the second. -/
inductive CursorText where
  | text (s : String)
  | decimal (n : ℚ)
  | boolean (b : Bool)
  | iso (ms : ℤ)

/-- The text of a sort value: `none` is the code's `undefined`, `some none` its `null`.
Reference: `toCursorSortText`. -/
def toCursorSortText : DriverValue → Option (Option CursorText)
  | .undefined => none
  | .null => some none
  | .string s => some (some (.text s))
  | .number n => some (some (.decimal n))
  | .bigint n => some (some (.decimal n))
  | .boolean b => some (some (.boolean b))
  | .date ms => some (some (.iso ms))
  | .object json => some (some (.text json))

/-- A column's type as the list sees it: what the driver returns for a value, and the value Postgres reads
from a text bound where a value of the column is expected (`none` when it rejects the text). `SELECT *`
returns every column, so a value never comes back as `undefined`. -/
structure SortColumn (V : Type*) where
  toDriver : V → DriverValue
  ofText : CursorText → Option V
  defined : ∀ v, toDriver v ≠ .undefined

/-- The raw row's entry for the sort: SQL `NULL` comes back as `null`. -/
def SortColumn.driverValue (col : SortColumn V) : Option V → DriverValue
  | none => .null
  | some v => col.toDriver v

/-- A cursor's payload; its JSON and base64url layers are undone exactly by decoding.
Reference: `encodeCursor`, `encodeKeysetCursor`. -/
inductive Cursor (ι : Type*) where
  | idOnly (id : ι)
  | keyset (sortValue : Option CursorText) (id : ι)

/-- Reference: `DecodedKeysetCursor`. -/
structure DecodedKeysetCursor (ι : Type*) where
  id : ι
  sortValue : Option (Option CursorText)

/-- Reference: `decodeKeysetCursor`. -/
def decodeKeysetCursor : Cursor ι → DecodedKeysetCursor ι
  | .idOnly id => ⟨id, none⟩
  | .keyset sortValue id => ⟨id, some sortValue⟩

/-- Reference: `encodeNextCursor`. -/
def encodeNextCursor (col : SortColumn V) (sort : ListSort) (lastRow : PageRow ι V) : Cursor ι :=
  let sortText :=
    match sort with
    | .unsorted => none
    | .sorted _ => toCursorSortText (col.driverValue lastRow.sortValue)
  match sortText with
  | none => .idOnly lastRow.id
  | some sortText => .keyset sortText lastRow.id

/-- `id > $n`. -/
def afterId (id : ι) (row : PageRow ι V) : Truth :=
  .compare (fun a b => b < a) (some row.id) (some id)

/-- The condition behind a cursor whose sort value is bound as `param`.
Reference: `keysetBoundarySql`. -/
def keysetBoundary (sort : SortedListSort) (id : ι) (param : Option V) (row : PageRow ι V) : Truth :=
  match param with
  | none =>
    if sortsNullsFirst sort then (Truth.isNotNull row.sortValue).or (afterId id row)
    else (Truth.isNull row.sortValue).and (afterId id row)
  | some v =>
    let beyond := Truth.compare (fun a b => if sort.descending then a < b else b < a) row.sortValue (some v)
    let tie := (Truth.compare (fun a b => a == b) row.sortValue (some v)).and (afterId id row)
    if sortsNullsFirst sort then (Truth.isNotNull row.sortValue).and (beyond.or tie)
    else ((Truth.isNull row.sortValue).or beyond).or tie

/-- The cursor's condition, `none` when Postgres rejects the bound text.
Reference: `appendCursorBoundary`. -/
def appendCursorBoundary (col : SortColumn V) (cursor : Cursor ι) (sort : ListSort) :
    Option (PageRow ι V → Truth) :=
  let cursor := decodeKeysetCursor cursor
  match sort, cursor.sortValue with
  | .unsorted, _ => some (afterId cursor.id)
  | .sorted _, none => some (afterId cursor.id)
  | .sorted sort, some none => some (keysetBoundary sort cursor.id none)
  | .sorted sort, some (some text) =>
    (col.ofText text).map fun v => keysetBoundary sort cursor.id (some v)

/-! ## One page -/

/-- Reference: `MAX_LIST_LIMIT`. -/
def maxListLimit : ℕ := 200

/-- Reference: `DEFAULT_LIST_LIMIT`. -/
def defaultListLimit : ℕ := 50

/-- A `limit` or `offset` of the payload, which may be anything: `other` stands for a string, a fraction,
an object. -/
inductive PageParam where
  | absent
  | integer (n : ℤ)
  | other

/-- `rejectedParameter` is Postgres' error at a cursor text that is no value of the column's type. -/
inductive ListError where
  | invalidListLimit
  | invalidListOffset
  | rejectedParameter

/-- A non-negative integer, or the default. -/
def PageParam.resolve (param : PageParam) (default : ℕ) : Option ℕ :=
  match param with
  | .absent => some default
  | .integer n => if 0 ≤ n then some n.toNat else none
  | .other => none

/-- Reference: `resolveListPagination`. -/
def resolveListPagination (limit offset : PageParam) : Except ListError (ℕ × ℕ) :=
  match limit.resolve defaultListLimit with
  | none => .error .invalidListLimit
  | some limit =>
    match offset.resolve 0 with
    | none => .error .invalidListOffset
    | some offset => .ok (min limit maxListLimit, offset)

/-- The part of a list request that pages. -/
structure ListPayload (ι : Type*) where
  limit : PageParam
  offset : PageParam
  cursor : Option (Cursor ι)

/-- Reference: the result of `list`. -/
structure ListPage (ι V : Type*) where
  rows : List (PageRow ι V)
  nextCursor : Option (Cursor ι)

/-- The page of the rows that the whole `WHERE` selects. -/
def pageOf (col : SortColumn V) (sort : ListSort) (limit offset : ℕ) (selected : List (PageRow ι V)) :
    ListPage ι V :=
  let rows := ((orderBy sort selected).drop offset).take limit
  { rows := rows
    nextCursor := if rows.length = limit then rows.getLast?.map (encodeNextCursor col sort) else none }

/-- One list request. Reference: `list`. -/
def list (col : SortColumn V) (sort : ListSort) (table : PageTable ι V) (payload : ListPayload ι) :
    Except ListError (ListPage ι V) :=
  match resolveListPagination payload.limit payload.offset with
  | .error e => .error e
  | .ok (limit, offset) =>
    match payload.cursor with
    | none => .ok (pageOf col sort limit offset table.rows)
    | some cursor =>
      match appendCursorBoundary col cursor sort with
      | none => .error .rejectedParameter
      | some boundary =>
        .ok (pageOf col sort limit 0 (table.rows.filter fun row => (boundary row).holds))

/-! ## Following `nextCursor` -/

/-- The pages a client gets that asks again with `nextCursor` until there is none. -/
inductive Follow (col : SortColumn V) (sort : ListSort) (table : PageTable ι V) (limit : ℕ) :
    Option (Cursor ι) → List (List (PageRow ι V)) → Prop
  | last {cursor : Option (Cursor ι)} {rows : List (PageRow ι V)} :
      list col sort table ⟨.integer limit, .absent, cursor⟩ = .ok ⟨rows, none⟩ →
      Follow col sort table limit cursor [rows]
  | more {cursor : Option (Cursor ι)} {rows : List (PageRow ι V)} {next : Cursor ι}
      {pages : List (List (PageRow ι V))} :
      list col sort table ⟨.integer limit, .absent, cursor⟩ = .ok ⟨rows, some next⟩ →
      Follow col sort table limit (some next) pages →
      Follow col sort table limit cursor (rows :: pages)

/-- Following the cursors ends, and returned every matching row once, in the requested order. -/
def KeysetExact (col : SortColumn V) (sort : ListSort) (table : PageTable ι V) (limit : ℕ) : Prop :=
  ∃ pages, Follow col sort table limit none pages ∧
    pages.flatten.Pairwise (fun a b => before sort a b = true) ∧ pages.flatten.Perm table.rows

/-- The row the next request compares with, in place of the page's last row; `none` when that request
fails. -/
def readBack (col : SortColumn V) (sort : ListSort) (row : PageRow ι V) : Option (PageRow ι V) :=
  match sort with
  | .unsorted => some row
  | .sorted _ =>
    match toCursorSortText (col.driverValue row.sortValue) with
    | none => none
    | some none => some ⟨row.id, none⟩
    | some (some text) => (col.ofText text).map fun v => ⟨row.id, some v⟩

/-- At every page end the row read back stands where the page's last row stands. -/
def PageEndsReadBack (col : SortColumn V) (sort : ListSort) (table : PageTable ι V) (limit : ℕ) : Prop :=
  CursorsFaithful (orderBy sort table.rows) (min limit maxListLimit) (before sort) (readBack col sort)
    fun a b => before sort a b = true

/-! ## The order is strict and total -/

theorem SortedListSort.beyond_irrefl (sort : SortedListSort) (v : V) : sort.beyond v v = false := by
  unfold SortedListSort.beyond
  split <;> simp

theorem SortedListSort.beyond_trans {sort : SortedListSort} {u v w : V} (huv : sort.beyond u v = true)
    (hvw : sort.beyond v w = true) : sort.beyond u w = true := by
  unfold SortedListSort.beyond at *
  split at huv <;> simp_all
  · exact hvw.trans huv
  · exact huv.trans hvw

theorem SortedListSort.beyond_total (sort : SortedListSort) {v w : V} (hne : v ≠ w) :
    sort.beyond v w = true ∨ sort.beyond w v = true := by
  unfold SortedListSort.beyond
  split
  · simpa using hne.symm.lt_or_gt
  · simpa using hne.lt_or_gt

theorem before_irrefl (sort : ListSort) (a : PageRow ι V) : before sort a a = false := by
  obtain ⟨id, sortValue⟩ := a
  cases sort with
  | unsorted => simp [before]
  | sorted s => cases sortValue <;> simp [before, s.beyond_irrefl]

theorem before_trans {sort : ListSort} {a b c : PageRow ι V} (hab : before sort a b = true)
    (hbc : before sort b c = true) : before sort a c = true := by
  obtain ⟨i, u⟩ := a
  obtain ⟨j, v⟩ := b
  obtain ⟨k, w⟩ := c
  cases sort with
  | unsorted =>
    simp only [before, decide_eq_true_eq] at *
    exact hab.trans hbc
  | sorted s =>
    cases u with
    | none =>
      cases v <;> cases w <;> simp_all [before]
      exact hab.trans hbc
    | some u =>
      cases v with
      | none => cases w <;> simp_all [before]
      | some v =>
        cases w with
        | none => simp_all [before]
        | some w =>
          simp only [before, Bool.or_eq_true, Bool.and_eq_true, beq_iff_eq, decide_eq_true_eq] at *
          rcases hab with huv | ⟨rfl, hij⟩
          · rcases hbc with hvw | ⟨rfl, -⟩
            · exact .inl (SortedListSort.beyond_trans huv hvw)
            · exact .inl huv
          · rcases hbc with hvw | ⟨rfl, hjk⟩
            · exact .inl hvw
            · exact .inr ⟨rfl, hij.trans hjk⟩

theorem before_total (sort : ListSort) {a b : PageRow ι V} (hne : a.id ≠ b.id) :
    before sort a b = true ∨ before sort b a = true := by
  obtain ⟨i, u⟩ := a
  obtain ⟨j, v⟩ := b
  have hid : i < j ∨ j < i := hne.lt_or_gt
  cases sort with
  | unsorted => simpa [before] using hid
  | sorted s =>
    cases u with
    | none => cases v <;> cases hnulls : sortsNullsFirst s <;> simp_all [before]
    | some u =>
      cases v with
      | none => cases hnulls : sortsNullsFirst s <;> simp_all [before]
      | some v =>
        simp only [before, Bool.or_eq_true, Bool.and_eq_true, beq_iff_eq, decide_eq_true_eq]
        rcases eq_or_ne u v with rfl | huv
        · exact hid.imp (fun h => .inr ⟨rfl, h⟩) fun h => .inr ⟨rfl, h⟩
        · exact (s.beyond_total huv).imp .inl .inl

/-- A third row is behind the first or before the second, also where it ties with one of them. -/
theorem before_cotrans {sort : ListSort} {a c : PageRow ι V} (hac : before sort a c = true)
    (b : PageRow ι V) : before sort a b = true ∨ before sort b c = true := by
  obtain ⟨i, u⟩ := a
  obtain ⟨j, v⟩ := b
  obtain ⟨k, w⟩ := c
  cases sort with
  | unsorted =>
    simp only [before, decide_eq_true_eq] at *
    exact (lt_or_ge i j).imp_right fun hji => hji.trans_lt hac
  | sorted s =>
    have hid : i < k → i < j ∨ j < k := fun hik => (lt_or_ge i j).imp_right fun hji => hji.trans_lt hik
    cases u with
    | none =>
      cases v <;> cases w <;> simp_all [before]
    | some u =>
      cases w with
      | none => cases v <;> simp_all [before]
      | some w =>
        cases v with
        | none => cases hnulls : sortsNullsFirst s <;> simp [before, hnulls]
        | some v =>
          simp only [before, Bool.or_eq_true, Bool.and_eq_true, beq_iff_eq, decide_eq_true_eq] at *
          rcases eq_or_ne u v with rfl | huv
          · rcases hac with huw | ⟨rfl, hik⟩
            · exact .inr (.inl huw)
            · exact (hid hik).imp (fun h => .inr ⟨rfl, h⟩) fun h => .inr ⟨rfl, h⟩
          · rcases s.beyond_total huv with h | h
            · exact .inl (.inl h)
            · rcases hac with huw | ⟨rfl, -⟩
              · exact .inr (.inl (SortedListSort.beyond_trans h huw))
              · exact .inr (.inl h)

theorem orderBy_perm (sort : ListSort) (rows : List (PageRow ι V)) : (orderBy sort rows).Perm rows :=
  List.perm_insertionSort _ _

/-- Rows with different ids are ordered strictly. -/
theorem orderBy_pairwise (sort : ListSort) {rows : List (PageRow ι V)}
    (hids : (rows.map (·.id)).Nodup) :
    (orderBy sort rows).Pairwise fun a b => before sort a b = true := by
  have hle : (orderBy sort rows).Pairwise fun a b => before sort b a = false := by
    have htotal : Std.Total fun a b : PageRow ι V => before sort b a = false := ⟨fun a b => by
      cases hba : before sort b a with
      | false => exact .inl rfl
      | true =>
        refine .inr (Bool.eq_false_iff.mpr fun hab => ?_)
        simpa [before_irrefl] using before_trans hab hba⟩
    have htrans : IsTrans (PageRow ι V) fun a b => before sort b a = false := ⟨fun a b c hba hcb => by
      refine Bool.eq_false_iff.mpr fun hca => ?_
      rcases before_cotrans hca b with hcb' | hba'
      · simp [hcb] at hcb'
      · simp [hba] at hba'⟩
    exact List.pairwise_insertionSort _ _
  have hids' : ((orderBy sort rows).map (·.id)).Nodup :=
    ((orderBy_perm sort rows).map _).nodup_iff.mpr hids
  have hne : (orderBy sort rows).Pairwise fun a b => a.id ≠ b.id := List.pairwise_map.mp hids'
  exact (hle.and hne).imp fun h => (before_total sort h.2).resolve_right (by simp [h.1])

/-- Filtering before the sort or behind it is the same: both are the strictly ordered list of the rows
kept. -/
theorem orderBy_filter (sort : ListSort) {rows : List (PageRow ι V)} (hids : (rows.map (·.id)).Nodup)
    (p : PageRow ι V → Bool) : orderBy sort (rows.filter p) = (orderBy sort rows).filter p := by
  have hperm : (orderBy sort (rows.filter p)).Perm ((orderBy sort rows).filter p) :=
    (orderBy_perm sort _).trans ((orderBy_perm sort rows).filter p).symm
  have hsub : ((rows.filter p).map (·.id)).Nodup := hids.sublist (List.filter_sublist.map _)
  refine hperm.eq_of_pairwise ?_ (orderBy_pairwise sort hsub) ((orderBy_pairwise sort hids).filter p)
  intro a b _ _ hab hba
  simpa [before_irrefl] using before_trans hab hba

/-! ## The conditions are right -/

/-- The condition behind a sort value selects the rows behind it. -/
theorem holds_keysetBoundary (sort : SortedListSort) (cursor row : PageRow ι V) :
    (keysetBoundary sort cursor.id cursor.sortValue row).holds = before (.sorted sort) cursor row := by
  obtain ⟨id, v⟩ := cursor
  obtain ⟨id', w⟩ := row
  cases hnulls : sortsNullsFirst sort <;> cases v <;> cases w <;>
    simp [keysetBoundary, afterId, before, hnulls, SortedListSort.beyond, BEq.comm]

/-- The condition made from a page's last row selects what lies behind the row read back. -/
theorem appendCursorBoundary_encodeNextCursor (col : SortColumn V) (sort : ListSort)
    (row : PageRow ι V) :
    (appendCursorBoundary col (encodeNextCursor col sort row) sort).map
        (fun boundary y => (boundary y).holds) =
      (readBack col sort row).map (before sort) := by
  cases sort with
  | unsorted =>
    simp only [encodeNextCursor, appendCursorBoundary, decodeKeysetCursor, readBack, Option.map_some]
    congr 1
    funext y
    simp [afterId, before]
  | sorted s =>
    have hnull (id : ι) : (fun y => (keysetBoundary s id none y).holds) =
        before (.sorted s) (⟨id, none⟩ : PageRow ι V) := by
      funext y
      exact holds_keysetBoundary s ⟨id, none⟩ y
    have hvalue (id : ι) (v : V) : (fun y => (keysetBoundary s id (some v) y).holds) =
        before (.sorted s) (⟨id, some v⟩ : PageRow ι V) := by
      funext y
      exact holds_keysetBoundary s ⟨id, some v⟩ y
    rcases htext : toCursorSortText (col.driverValue row.sortValue) with _ | _ | text
    · -- a driver value without a text would be an absent column
      exfalso
      cases hv : row.sortValue with
      | none => simp [hv, SortColumn.driverValue, toCursorSortText] at htext
      | some v =>
        have hdef := col.defined v
        rw [hv, SortColumn.driverValue] at htext
        cases hd : col.toDriver v <;> simp_all [toCursorSortText]
    · simp [encodeNextCursor, appendCursorBoundary, decodeKeysetCursor, readBack, htext, hnull]
    · cases hof : col.ofText text <;>
        simp [encodeNextCursor, appendCursorBoundary, decodeKeysetCursor, readBack, htext, hof, hvalue]

/-! ## Following the cursors is a walk -/

/-- The rows a request's cursor selects, `none` when the request fails. -/
def selectedBy (col : SortColumn V) (sort : ListSort) :
    Option (Cursor ι) → Option (PageRow ι V → Bool)
  | none => some fun _ => true
  | some cursor => (appendCursorBoundary col cursor sort).map fun boundary y => (boundary y).holds

/-- What a request of a cursor walk returns. -/
theorem list_eq {col : SortColumn V} {sort : ListSort} {table : PageTable ι V} {limit : ℕ}
    {cursor : Option (Cursor ι)} :
    list col sort table ⟨.integer limit, .absent, cursor⟩ =
      match selectedBy col sort cursor with
      | none => .error .rejectedParameter
      | some p => .ok (pageOf col sort (min limit maxListLimit) 0 (table.rows.filter p)) := by
  cases cursor with
  | none => simp [list, resolveListPagination, PageParam.resolve, selectedBy]
  | some cursor =>
    cases hb : appendCursorBoundary col cursor sort <;>
      simp [list, resolveListPagination, PageParam.resolve, selectedBy, hb]

/-- A page is a prefix of the rows selected, and has a cursor exactly when it is full. -/
theorem pageOf_eq {col : SortColumn V} {sort : ListSort} {table : PageTable ι V} {n : ℕ} (hn : 0 < n)
    (p : PageRow ι V → Bool) {xs : List (PageRow ι V)} (hxs : xs = (orderBy sort table.rows).filter p) :
    pageOf col sort n 0 (table.rows.filter p) =
      ⟨xs.take n, (xs[n - 1]?).map (encodeNextCursor col sort)⟩ := by
  have hrows : ((orderBy sort (table.rows.filter p)).drop 0).take n = xs.take n := by
    rw [orderBy_filter sort table.ids_nodup, hxs, List.drop_zero]
  rw [pageOf, hrows]
  congr 1
  rcases Nat.lt_or_ge xs.length n with hshort | hfull
  · rw [if_neg (by rw [List.length_take]; omega), List.getElem?_eq_none (by omega), Option.map_none]
  · rw [if_pos (by rw [List.length_take]; omega), List.getLast?_eq_getElem?, List.length_take,
      Nat.min_eq_left hfull, List.getElem?_take_of_lt (by omega)]

section Walk

variable {col : SortColumn V} {sort : ListSort} {table : PageTable ι V} {limit : ℕ}

theorem selectedBy_encodeNextCursor (row : PageRow ι V) :
    selectedBy col sort (some (encodeNextCursor col sort row)) = (readBack col sort row).map (before sort) :=
  appendCursorBoundary_encodeNextCursor col sort row

theorem Follow.selected {cursor : Option (Cursor ι)} {pages : List (List (PageRow ι V))}
    (h : Follow col sort table limit cursor pages) : ∃ p, selectedBy col sort cursor = some p := by
  have hlist : ∃ page, list col sort table ⟨.integer limit, .absent, cursor⟩ = .ok page := by
    cases h with
    | last hlist => exact ⟨_, hlist⟩
    | more hlist _ => exact ⟨_, hlist⟩
  obtain ⟨page, hlist⟩ := hlist
  rw [list_eq] at hlist
  cases hp : selectedBy col sort cursor with
  | none => simp [hp] at hlist
  | some p => exact ⟨p, rfl⟩

theorem Follow.walk (hn : 0 < min limit maxListLimit) {cursor : Option (Cursor ι)}
    {pages : List (List (PageRow ι V))} (h : Follow col sort table limit cursor pages)
    {p : PageRow ι V → Bool} (hp : selectedBy col sort cursor = some p) :
    Walk (orderBy sort table.rows) (min limit maxListLimit) (before sort) (readBack col sort)
      ((orderBy sort table.rows).filter p) pages := by
  induction h generalizing p with
  | last hlist =>
    rw [list_eq, hp] at hlist
    simp only [pageOf_eq hn p rfl, Except.ok.injEq, ListPage.mk.injEq, Option.map_eq_none_iff,
      List.getElem?_eq_none_iff] at hlist
    obtain ⟨rfl, hshort⟩ := hlist
    rw [List.take_of_length_le (by omega)]
    exact .last (by omega)
  | more hlist hrest ih =>
    rw [list_eq, hp] at hlist
    simp only [pageOf_eq hn p rfl, Except.ok.injEq, ListPage.mk.injEq, Option.map_eq_some_iff] at hlist
    obtain ⟨rfl, x, hx, rfl⟩ := hlist
    obtain ⟨q, hq⟩ := hrest.selected
    have hread := hq
    rw [selectedBy_encodeNextCursor, Option.map_eq_some_iff] at hread
    obtain ⟨c, hc, rfl⟩ := hread
    exact .more hx hc (ih hq)

theorem Follow.of_walk (hn : 0 < min limit maxListLimit) {xs : List (PageRow ι V)}
    {pages : List (List (PageRow ι V))}
    (h : Walk (orderBy sort table.rows) (min limit maxListLimit) (before sort) (readBack col sort) xs pages)
    {cursor : Option (Cursor ι)} {p : PageRow ι V → Bool} (hp : selectedBy col sort cursor = some p)
    (hxs : xs = (orderBy sort table.rows).filter p) : Follow col sort table limit cursor pages := by
  induction h generalizing cursor p with
  | @last xs hshort =>
    refine .last ?_
    rw [list_eq, hp]
    simp only [pageOf_eq hn p hxs]
    rw [List.getElem?_eq_none (by omega), List.take_of_length_le (by omega), Option.map_none]
  | @more xs x c pages hx hc _ ih =>
    have hpage : list col sort table ⟨.integer limit, .absent, cursor⟩ =
        .ok ⟨xs.take (min limit maxListLimit), some (encodeNextCursor col sort x)⟩ := by
      rw [list_eq, hp]
      simp only [pageOf_eq hn p hxs, hx, Option.map_some]
    have hnext : selectedBy col sort (some (encodeNextCursor col sort x)) = some (before sort c) := by
      rw [selectedBy_encodeNextCursor, hc, Option.map_some]
    exact .more hpage (ih hnext rfl)

/-- Following the cursors returns every row once and in order exactly when the walk over the sorted table
hands that table out. -/
theorem keysetExact_iff_walk (hn : 0 < min limit maxListLimit) :
    KeysetExact col sort table limit ↔
      ∃ pages, Walk (orderBy sort table.rows) (min limit maxListLimit) (before sort) (readBack col sort)
        (orderBy sort table.rows) pages ∧ pages.flatten = orderBy sort table.rows := by
  have hstart : selectedBy col sort (none : Option (Cursor ι)) = some fun _ => true := rfl
  have hall : (orderBy sort table.rows).filter (fun _ => true) = orderBy sort table.rows := by simp
  constructor
  · intro ⟨pages, hfollow, hsorted, hperm⟩
    refine ⟨pages, by simpa using hfollow.walk hn hstart, ?_⟩
    refine (hperm.trans (orderBy_perm sort table.rows).symm).eq_of_pairwise ?_ hsorted
      (orderBy_pairwise sort table.ids_nodup)
    intro a b _ _ hab hba
    simpa [before_irrefl] using before_trans hab hba
  · intro ⟨pages, hwalk, hpages⟩
    refine ⟨pages, Follow.of_walk hn hwalk hstart hall.symm, ?_, ?_⟩
    · rw [hpages]
      exact orderBy_pairwise sort table.ids_nodup
    · rw [hpages]
      exact orderBy_perm sort table.rows

end Walk

/-! ## When the pagination is exact -/

section Exact

variable {col : SortColumn V} {sort : ListSort} {table : PageTable ι V} {limit : ℕ}

theorem pageSize_pos (hlimit : 1 ≤ limit) : 0 < min limit maxListLimit := by
  unfold maxListLimit
  omega

/-- `walk_exact_iff` at the sorted table. -/
theorem walk_iff_pageEnds (hn : 0 < min limit maxListLimit) :
    (∃ pages, Walk (orderBy sort table.rows) (min limit maxListLimit) (before sort) (readBack col sort)
        (orderBy sort table.rows) pages ∧ pages.flatten = orderBy sort table.rows) ↔
      PageEndsReadBack col sort table limit := by
  refine walk_exact_iff (orderBy_pairwise sort table.ids_nodup) ?_ ?_ hn ?_
  · intro a ha
    simp [before_irrefl] at ha
  · intro a b c
    exact before_trans
  · intro c y z hyz hcy
    exact before_trans hcy hyz

theorem KeysetExact.pageEnds (hlimit : 1 ≤ limit) (h : KeysetExact col sort table limit) :
    PageEndsReadBack col sort table limit :=
  (walk_iff_pageEnds (pageSize_pos hlimit)).mp ((keysetExact_iff_walk (pageSize_pos hlimit)).mp h)

theorem PageEndsReadBack.exact (hlimit : 1 ≤ limit) (h : PageEndsReadBack col sort table limit) :
    KeysetExact col sort table limit :=
  (keysetExact_iff_walk (pageSize_pos hlimit)).mpr ((walk_iff_pageEnds (pageSize_pos hlimit)).mpr h)

/-- A column reads a value back when the cursor's text of it is that value's. -/
def SortColumn.ReadsBack (col : SortColumn V) (v : V) : Prop :=
  ∃ text, toCursorSortText (col.toDriver v) = some (some text) ∧ col.ofText text = some v

/-- Where the column reads every sort value of the table back, every limit is exact. -/
theorem PageEndsReadBack.of_readsBack
    (h : ∀ row ∈ table.rows, ∀ v, row.sortValue = some v → col.ReadsBack v) (limit : ℕ) :
    PageEndsReadBack col sort table limit := by
  intro k row hrow
  refine ⟨row, ?_, fun _ _ => Iff.rfl⟩
  have hmem : row ∈ table.rows := (orderBy_perm sort table.rows).mem_iff.mp (List.mem_of_getElem? hrow)
  obtain ⟨id, sortValue⟩ := row
  cases sort with
  | unsorted => rfl
  | sorted s =>
    cases sortValue with
    | none => rfl
    | some v =>
      obtain ⟨text, htext, hof⟩ := h _ hmem v rfl
      simp [readBack, SortColumn.driverValue, htext, hof]

end Exact

/-! ## A column the driver returns as a `Date` -/

/-- A `timestamptz` column, in microseconds; a `Date` counts milliseconds. -/
def timestamptzColumn : SortColumn ℤ where
  toDriver us := .date (us / 1000)
  ofText
    | .iso ms => some (ms * 1000)
    | _ => none
  defined := by simp

/-- An instant survives the cursor exactly when it has no fraction of a millisecond. -/
theorem timestamptzColumn_readsBack_iff (us : ℤ) : timestamptzColumn.ReadsBack us ↔ 1000 ∣ us := by
  constructor
  · rintro ⟨text, htext, hof⟩
    obtain rfl : CursorText.iso (us / 1000) = text := by
      simpa [timestamptzColumn, toCursorSortText] using htext
    obtain h : us / 1000 * 1000 = us := by
      simpa [timestamptzColumn] using hof
    exact ⟨us / 1000, by omega⟩
  · intro h
    refine ⟨.iso (us / 1000), rfl, ?_⟩
    simp only [timestamptzColumn, Option.some.injEq]
    omega

/-! ## The claim and its counterexample -/

/-- **Following the cursors is exact if and only if every page end reads back.** -/
theorem keyset_exact_iff (col : SortColumn V) (sort : ListSort) (table : PageTable ι V) (limit : ℕ)
    (hlimit : 1 ≤ limit) :
    KeysetExact col sort table limit ↔ PageEndsReadBack col sort table limit :=
  ⟨KeysetExact.pageEnds hlimit, PageEndsReadBack.exact hlimit⟩

/-- Two instants of whole milliseconds, the later one under the smaller id. -/
def wholeMillisecondRows : PageTable ℕ ℤ where
  rows := [⟨1, some 1700000000002000⟩, ⟨2, some 1700000000001000⟩, ⟨3, none⟩]
  ids_nodup := by decide

theorem keyset_exact_wholeMilliseconds :
    KeysetExact timestamptzColumn (.sorted ⟨true, some .last⟩) wholeMillisecondRows 2 := by
  refine (keyset_exact_iff _ _ _ 2 (by decide)).mpr (PageEndsReadBack.of_readsBack ?_ 2)
  intro row hrow v hv
  rw [timestamptzColumn_readsBack_iff]
  simp only [wholeMillisecondRows, List.mem_cons, List.not_mem_nil, or_false] at hrow
  rcases hrow with rfl | rfl | rfl <;> cases hv <;> decide

/-- A row whose `inserted_at` came from `DEFAULT now()`. -/
def microsecondRow : PageTable ℕ ℤ where
  rows := [⟨1, some 1700000000001234⟩]
  ids_nodup := by decide

/-- With one row per page an ascending list never gets past that row: the boundary lies 234 microseconds
before it. -/
theorem not_keyset_exact :
    ¬ ∀ (sort : ListSort) (table : PageTable ℕ ℤ) (limit : ℕ), 1 ≤ limit →
      KeysetExact timestamptzColumn sort table limit := by
  intro h
  obtain ⟨c, hc, hiff⟩ :=
    (h (.sorted ⟨false, none⟩) microsecondRow 1 le_rfl).pageEnds le_rfl 0 ⟨1, some 1700000000001234⟩ rfl
  obtain rfl : (⟨1, some 1700000000001000⟩ : PageRow ℕ ℤ) = c := by
    have hread : readBack timestamptzColumn (.sorted ⟨false, none⟩)
        (⟨1, some 1700000000001234⟩ : PageRow ℕ ℤ) = some ⟨1, some 1700000000001000⟩ := by decide
    exact Option.some.inj (hread.symm.trans hc)
  have hself := hiff ⟨1, some 1700000000001234⟩ (List.mem_singleton_self _)
  exact absurd (hself.mp (by decide)) (by decide)

end Kumiko
