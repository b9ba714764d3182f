import Mathlib.Algebra.Order.BigOperators.Group.List
import Mathlib.Algebra.Order.Group.Int
import Kumiko.Caps.Clients

/-!
# What a cap has counted is what its reservations stand for

A reservation stands for what is reserved and consumed while it is open, for what was settled, and for what had
been consumed at its release. `consume` compares the cap and not the period of the row it finds, `settle`
neither, and a missing row is taken for one that was given back. Where the cap and the period are those of the
row and no row is made for a reservation that is past, the counters stay what the reservations stand for
(`conserved_of_run`).
-/

namespace Kumiko

open Transition

/-! ## What reservations stand for -/

def CapReservationRow.countedOn (key : CapKey) (r : CapReservationRow) : ℤ := if r.key = key then r.counted else 0

def PastReservation.countedOn (key : CapKey) (p : PastReservation) : ℤ := if p.key = key then p.amount else 0

/-- What all reservations of the cap stand for. -/
def reservedOn (key : CapKey) (rows : List CapReservationRow) (past : List PastReservation) : ℤ :=
  (rows.map (·.countedOn key)).sum + (past.map (·.countedOn key)).sum

/-- The ids of all reservations. -/
def reservationIds (rows : List CapReservationRow) (past : List PastReservation) : List String :=
  rows.map (·.id) ++ past.map (·.id)

section Reserved

variable {key : CapKey} {rows : List CapReservationRow} {past : List PastReservation} {row old : CapReservationRow}

/-- A row never stands for less than nothing. -/
theorem CapReservationRow.countedOn_nonneg (r : CapReservationRow) : 0 ≤ r.countedOn key := by
  unfold CapReservationRow.countedOn
  split
  · exact Int.natCast_nonneg _
  · exact le_rfl

theorem PastReservation.countedOn_nonneg (p : PastReservation) : 0 ≤ p.countedOn key := by
  unfold PastReservation.countedOn
  split
  · exact Int.natCast_nonneg _
  · exact le_rfl

theorem pastCounted_nonneg : 0 ≤ (past.map (·.countedOn key)).sum :=
  List.sum_nonneg fun x hx => by
    obtain ⟨p, -, rfl⟩ := List.mem_map.1 hx
    exact p.countedOn_nonneg

theorem reservedOn_nonneg : 0 ≤ reservedOn key rows past := by
  have hrows : 0 ≤ (rows.map (·.countedOn key)).sum := List.sum_nonneg fun x hx => by
    obtain ⟨r, -, rfl⟩ := List.mem_map.1 hx
    exact r.countedOn_nonneg
  exact add_nonneg hrows pastCounted_nonneg

/-- One row stands for no more than all. -/
theorem counted_le_reservedOn (h : row ∈ rows) : (row.counted : ℤ) ≤ reservedOn row.key rows past := by
  have hrow : row.countedOn row.key ≤ (rows.map (·.countedOn row.key)).sum :=
    List.single_le_sum (fun x hx => by
      obtain ⟨r, -, rfl⟩ := List.mem_map.1 hx
      exact r.countedOn_nonneg) _ (List.mem_map.2 ⟨row, h, rfl⟩)
  rw [CapReservationRow.countedOn, if_pos rfl] at hrow
  exact le_add_of_le_of_nonneg hrow pastCounted_nonneg

theorem nodup_rows (h : (reservationIds rows past).Nodup) : (rows.map (·.id)).Nodup :=
  (List.nodup_append.1 h).1

theorem reservedOn_insert : reservedOn key (rows ++ [row]) past = reservedOn key rows past + row.countedOn key := by
  rw [reservedOn, reservedOn, List.map_append, List.sum_append, List.map_singleton, List.sum_singleton]
  omega

/-- A row that is replaced changes what is reserved by the difference. -/
theorem reservedOn_put (h : (reservationIds rows past).Nodup)
    (hold : KeyedRows.lookup (·.id) row.id rows = some old) :
    reservedOn key (KeyedRows.put (·.id) row rows) past =
      reservedOn key rows past - old.countedOn key + row.countedOn key := by
  rw [reservedOn, reservedOn, KeyedRows.sum_put (nodup_rows h) hold]
  omega

/-- A row that is deleted takes along what it stands for. -/
theorem reservedOn_delete {id : String} (h : (reservationIds rows past).Nodup)
    (hold : KeyedRows.lookup (·.id) id rows = some old) :
    reservedOn key (KeyedRows.delete (·.id) id rows) past = reservedOn key rows past - old.countedOn key := by
  rw [reservedOn, reservedOn, KeyedRows.sum_delete (nodup_rows h) hold]
  omega

/-- A row that goes leaves behind what it stands for. -/
theorem reservedOn_retire {id : String} (h : (reservationIds rows past).Nodup)
    (hold : KeyedRows.lookup (·.id) id rows = some old) :
    reservedOn key (KeyedRows.delete (·.id) id rows) (past ++ [old.past]) = reservedOn key rows past := by
  have hpast : old.past.countedOn key = old.countedOn key := rfl
  rw [reservedOn, reservedOn, KeyedRows.sum_delete (nodup_rows h) hold, List.map_append, List.sum_append,
    List.map_singleton, List.sum_singleton, hpast]
  omega

theorem nodup_insert (h : (reservationIds rows past).Nodup) (hnew : row.id ∉ reservationIds rows past) :
    (reservationIds (rows ++ [row]) past).Nodup := by
  rw [reservationIds, List.map_append, List.append_assoc]
  rw [reservationIds] at h hnew
  exact List.nodup_middle.2 (List.nodup_cons.2 ⟨hnew, h⟩)

theorem nodup_put_row (h : (reservationIds rows past).Nodup) :
    (reservationIds (KeyedRows.put (·.id) row rows) past).Nodup := by
  rwa [reservationIds, KeyedRows.map_put]

theorem nodup_delete_row {id : String} (h : (reservationIds rows past).Nodup) :
    (reservationIds (KeyedRows.delete (·.id) id rows) past).Nodup :=
  h.sublist ((List.filter_sublist.map _).append_right _)

/-- A row that becomes past keeps its id. -/
theorem nodup_retire {id : String} (h : (reservationIds rows past).Nodup)
    (hold : KeyedRows.lookup (·.id) id rows = some old) :
    (reservationIds (KeyedRows.delete (·.id) id rows) (past ++ [old.past])).Nodup := by
  have hid : old.id = id := KeyedRows.key_of_lookup hold
  have hfirst : ((old.id :: (KeyedRows.delete (·.id) id rows).map (·.id)) ++ past.map (·.id)).Nodup := by
    rw [hid, List.cons_append]
    refine List.nodup_cons.2 ⟨fun hmem => ?_, nodup_delete_row h⟩
    obtain hrow | hpast := List.mem_append.1 hmem
    · obtain ⟨r, hr, hrid⟩ := List.mem_map.1 hrow
      exact (KeyedRows.mem_delete.1 hr).2 hrid
    · exact (List.nodup_append.1 h).2.2 id (List.mem_map.2 ⟨old, KeyedRows.mem_of_lookup hold, hid⟩) id hpast rfl
  rw [reservationIds, List.map_append, List.map_singleton]
  refine (List.Perm.nodup_iff ?_).1 hfirst
  rw [List.cons_append, ← List.append_assoc]
  exact (List.perm_append_singleton _ _).symm

end Reserved

/-! ## Rows that go -/

/-- The rows of these reservations are gone, and what they stood for is kept. -/
structure Retired (gone : List String) (rows : List CapReservationRow) (past : List PastReservation)
    (rows' : List CapReservationRow) (past' : List PastReservation) : Prop where
  nodup : (reservationIds rows' past').Nodup
  mem : ∀ r ∈ rows', r ∈ rows
  reserved : ∀ key, reservedOn key rows' past' = reservedOn key rows past
  lookup : ∀ id ∉ gone, KeyedRows.lookup (·.id) id rows' = KeyedRows.lookup (·.id) id rows
  ids : ∀ id ∈ reservationIds rows' past', id ∈ reservationIds rows past

theorem retired_one {id : String} {rows : List CapReservationRow} {past : List PastReservation}
    {old : CapReservationRow} (h : (reservationIds rows past).Nodup)
    (hold : KeyedRows.lookup (·.id) id rows = some old) :
    Retired [id] rows past (KeyedRows.delete (·.id) id rows) (past ++ [old.past]) where
  nodup := nodup_retire h hold
  mem _ hr := (KeyedRows.mem_delete.1 hr).1
  reserved _ := reservedOn_retire h hold
  lookup _ hid := KeyedRows.lookup_delete_of_ne fun heq => hid (List.mem_singleton.2 heq.symm)
  ids x hx := by
    obtain hx | hx := List.mem_append.1 hx
    · obtain ⟨r, hr, rfl⟩ := List.mem_map.1 hx
      exact List.mem_append_left _ (List.mem_map.2 ⟨r, (KeyedRows.mem_delete.1 hr).1, rfl⟩)
    · rw [List.map_append, List.map_singleton] at hx
      obtain hx | hx := List.mem_append.1 hx
      · exact List.mem_append_right _ hx
      · rw [List.mem_singleton.1 hx]
        exact List.mem_append_left _ (List.mem_map.2 ⟨old, KeyedRows.mem_of_lookup hold, rfl⟩)

/-- Rows may be retired one after the other. -/
theorem Retired.trans {gone gone' : List String} {rows rows' rows'' : List CapReservationRow}
    {past past' past'' : List PastReservation} (h : Retired gone rows past rows' past')
    (h' : Retired gone' rows' past' rows'' past'') : Retired (gone ++ gone') rows past rows'' past'' where
  nodup := h'.nodup
  mem r hr := h.mem r (h'.mem r hr)
  reserved key := (h'.reserved key).trans (h.reserved key)
  lookup id hid := (h'.lookup id fun hmem => hid (List.mem_append_right _ hmem)).trans
    (h.lookup id fun hmem => hid (List.mem_append_left _ hmem))
  ids id hid := h.ids id (h'.ids id hid)

/-- The rows that a transaction has confirmed go one after the other. -/
theorem retired_confirms {ws : List RowWrite} {rows : List CapReservationRow} {past : List PastReservation}
    (hnodup : (reservationIds rows past).Nodup) (hws : (ws.map (·.id)).Nodup)
    (hrow : ∀ w ∈ ws, ∃ id row, w = .confirm id ∧ KeyedRows.lookup (·.id) id rows = some row) :
    Retired (ws.map (·.id)) rows past (ws.foldl RowWrite.apply rows) (past ++ ws.flatMap (RowWrite.past rows)) := by
  induction ws generalizing rows past with
  | nil =>
    rw [List.flatMap_nil, List.append_nil]
    exact ⟨hnodup, fun _ hr => hr, fun _ => rfl, fun _ _ => rfl, fun _ hid => hid⟩
  | cons w ws ih =>
    obtain ⟨id, row, rfl, hlookup⟩ := hrow w List.mem_cons_self
    obtain ⟨hid, hws⟩ := List.nodup_cons.1 hws
    have hother : ∀ w ∈ ws, ∀ id', w = .confirm id' →
        KeyedRows.lookup (·.id) id' (KeyedRows.delete (·.id) id rows) = KeyedRows.lookup (·.id) id' rows := by
      rintro w hw id' rfl
      exact KeyedRows.lookup_delete_of_ne fun heq => hid (List.mem_map.2 ⟨_, hw, heq.symm⟩)
    have hone := retired_one hnodup hlookup
    have hpast : ws.flatMap (RowWrite.past (KeyedRows.delete (·.id) id rows)) = ws.flatMap (RowWrite.past rows) :=
      List.flatMap_congr fun w hw => by
        obtain ⟨id', row', rfl, -⟩ := hrow w (List.mem_cons_of_mem _ hw)
        rw [RowWrite.past, RowWrite.past, hother _ hw id' rfl]
    have hrest := ih hone.nodup hws fun w hw => by
      obtain ⟨id', row', rfl, hlookup'⟩ := hrow w (List.mem_cons_of_mem _ hw)
      exact ⟨id', row', rfl, (hother _ hw id' rfl).trans hlookup'⟩
    have hall := hone.trans hrest
    rw [hpast, List.append_assoc] at hall
    rw [List.flatMap_cons, RowWrite.past, hlookup]
    exact hall

/-! ## What a command is about to do -/

def CapKey.IsRolling (key : CapKey) : Prop := ∃ tenantId capName, key = .rolling tenantId capName

/-- A released row reserves nothing, and nothing is consumed of a rolling cap. -/
structure CapReservationRow.Ok (r : CapReservationRow) : Prop where
  released : r.released = true → r.amount = 0
  rolling : r.key.IsRolling → r.consumedAmount = 0

/-- What a booking adds to its cap. -/
def CapBooking.delta (b : CapBooking) : ℤ :=
  match b.direction with
  | .add => b.amount
  | .subtract => -b.amount
  | .touch => 0

/-- The command is one on a reservation. -/
def CapOp.onReservation : CapOp → Bool
  | .book .. | .incrementRolling .. => false
  | _ => true

/-- A settle or a consume names the cap and the period of the row. -/
def CapOp.NamesPeriodOf (tenantId : String) (row : CapReservationRow) : CapOp → Prop
  | .settle _ capName periodStartIso _ | .consume _ capName periodStartIso _ =>
    row.key = .calendar tenantId capName periodStartIso
  | _ => True

instance (tenantId : String) (row : CapReservationRow) (op : CapOp) : Decidable (op.NamesPeriodOf tenantId row) := by
  cases op <;> unfold CapOp.NamesPeriodOf <;> infer_instance

/-- The row is one that the command may change. -/
def CapOp.MayChange (old : CapReservationRow) : CapOp → Prop
  | .release _ | .confirm _ => old.settled = false ∧ old.released = false
  | _ => old.settled = false

/-- The command is one that inserts rows. -/
def CapOp.MayInsert : CapOp → Prop
  | .release _ | .confirm _ => False
  | _ => True

/-- The write of a command on its own row, with what the reservations then stand for in addition. -/
inductive RowWrite.Adds (rows : List CapReservationRow) (locked : List String) (op : CapOp) (key : CapKey) (delta : ℤ) :
    RowWrite → Prop
  | insert {row : CapReservationRow} : op.MayInsert → row.id = op.id → row.key = key → row.Ok →
      row.counted = delta → Adds rows locked op key delta (.insert row)
  | put {row old : CapReservationRow} : row.id ∈ locked → row.id = op.id →
      KeyedRows.lookup (·.id) row.id rows = some old → op.MayChange old → old.key = key → row.key = key → row.Ok →
      row.counted = old.counted + delta → Adds rows locked op key delta (.put row)
  | delete {old : CapReservationRow} : old.id ∈ locked → old.id = op.id →
      KeyedRows.lookup (·.id) old.id rows = some old → op.MayChange old → old.key = key → 0 = old.counted + delta →
      Adds rows locked op key delta (.delete old.id)

/-- The row inserted is that of no reservation, present or past. -/
def RowWrite.Unused (rows : List CapReservationRow) (past : List PastReservation) (locked : List String) :
    RowWrite → Prop
  | .insert row => row.id ∈ locked ∧ row.id ∉ reservationIds rows past
  | _ => True

/-- What is staged adds as much to the cap. -/
def StagedAdds (streams : CapKey → List CapEvent) (staged : List Appended) (key : CapKey) (delta : ℤ) : Prop :=
  staged = [] ∧ delta = 0 ∨
    ∃ a, staged = [a] ∧ a.booking.key = key ∧ a.event.apply (capValue (streams key)) = capValue (streams key) + delta

namespace Caps

variable {n : ℕ} {s s' : Caps n} {k : Fin n} {a : CapAct n} {row : CapReservationRow} {locked : List String}

/-- A booking that is pending, with nothing staged yet. -/
def Pending (s : Caps n) (cl : CapClient) (op : CapOp) (b : CapBooking) : Prop :=
  cl.staged = [] ∧ cl.writes = [] ∧ ∃ w, b.next = some w ∧ w.Adds s.rows cl.locked op b.key b.delta

/-- A command in a transaction of its own: what it stages and what it writes add the same. -/
def OwnOk (s : Caps n) (cl : CapClient) (op : CapOp) : CapPhase → Prop
  | .fetch o | .claim o | .tombstone o => o = op ∧ cl.staged = [] ∧ cl.writes = []
  | .readCounter b => Pending s cl op b
  | .readVersion b => Pending s cl op b ∧ b.key.IsRolling
  | .sumIncremented b version | .sumReleased b version _ =>
    Pending s cl op b ∧ b.key.IsRolling ∧ version ≤ (s.streams b.key).length
  | .append b value version _ =>
    Pending s cl op b ∧ version ≤ (s.streams b.key).length ∧
      ((s.streams b.key).length = version → b.key.IsRolling ∨ capValue (s.streams b.key) = value)
  | .write o => cl.writes = [] ∧ ∃ w key delta, o = some w ∧ w.Adds s.rows cl.locked op key delta ∧
      StagedAdds s.streams cl.staged key delta
  | .done => cl.staged = [] ∧ cl.writes = [] ∨ ∃ w key delta, cl.writes = [w] ∧
      w.Adds s.rows cl.locked op key delta ∧ w.Unused s.rows s.past cl.locked ∧
      StagedAdds s.streams cl.staged key delta
  | .idle | .confirm _ => False

/-- A handler that has confirmed open reservations. -/
structure HandlerOk (s : Caps n) (cl : CapClient) : Prop where
  staged : cl.staged = []
  phase : cl.phase = .idle ∨ ∃ id, cl.phase = .confirm id
  confirms : ∀ w ∈ cl.writes, ∃ id row, w = .confirm id ∧ id ∈ cl.locked ∧
    KeyedRows.lookup (·.id) id s.rows = some row ∧ row.settled = false ∧ row.released = false
  nodup : (cl.writes.map (·.id)).Nodup

def ClientOk (s : Caps n) (cl : CapClient) : Prop :=
  match cl.own with
  | none => HandlerOk s cl
  | some op => OwnOk s cl op cl.phase

structure ConservedInv (s : Caps n) : Prop where
  exclusive : Exclusive s
  nodup : (reservationIds s.rows s.past).Nodup
  rows : ∀ r ∈ s.rows, r.Ok
  conserved : ∀ key, capValue (s.streams key) = reservedOn key s.rows s.past
  clients : ∀ k, ClientOk s (s.clients k)

theorem clientOk_closed : ClientOk s .closed := ⟨rfl, .inl rfl, fun _ hw => (nomatch hw), .nil⟩

/-- Nothing is counted and nothing reserved. -/
theorem conservedInv_initial : ConservedInv (initial : Caps n) where
  exclusive := exclusive_initial
  nodup := .nil
  rows _ hr := nomatch hr
  conserved _ := rfl
  clients _ := clientOk_closed

/-! ## The plans of a command -/

section Plans

variable {cl : CapClient} {op : CapOp} {key : CapKey} {delta : ℤ} {w : RowWrite}

/-- A calendar booking is to append what its row changes by. -/
theorem ownOk_bookCalendarDelta (hstaged : cl.staged = []) (hwrites : cl.writes = [])
    (hadds : w.Adds s.rows cl.locked op key delta) : OwnOk s cl op (bookCalendarDelta key delta w) := by
  unfold bookCalendarDelta
  split
  · next hzero => exact ⟨hwrites, w, key, delta, rfl, hadds, .inl ⟨hstaged, hzero⟩⟩
  · next hne =>
    refine ⟨hstaged, hwrites, w, rfl, ?_⟩
    have hdelta : CapBooking.delta
        { key, amount := delta.natAbs, direction := if 0 < delta then .add else .subtract, guard := none
          window := none, incrementedAt := none, next := some w } = delta := by
      by_cases hpos : 0 < delta
      · simp only [CapBooking.delta, if_pos hpos]
        omega
      · simp only [CapBooking.delta, if_neg hpos]
        omega
    rwa [hdelta]

theorem counted_of_unsettled (hok : row.Ok) (h : row.settled = false) :
    row.counted = row.amount + row.consumedAmount := by
  rw [CapReservationRow.counted, if_neg (by simp [h])]
  split
  · next hreleased => rw [hok.released hreleased, Nat.zero_add]
  · rfl

/-- Gives back what the row reserves. -/
theorem ownOk_giveBackReservation {id : String} (hstaged : cl.staged = [])
    (hwrites : cl.writes = []) (hlocked : row.id ∈ cl.locked) (hid : row.id = id)
    (hrow : KeyedRows.lookup (·.id) row.id s.rows = some row) (hok : row.Ok) (hsettled : row.settled = false)
    (hreleased : row.released = false) : OwnOk s cl (.release id) (giveBackReservation row) := by
  have hchange : (CapOp.release id).MayChange row := ⟨hsettled, hreleased⟩
  have hcounted := counted_of_unsettled hok hsettled
  have hdelete (hzero : row.consumedAmount = 0) :
      (RowWrite.delete row.id).Adds s.rows cl.locked (.release id) row.key (-row.amount) :=
    .delete hlocked hid hrow hchange rfl (by omega)
  have hput : (RowWrite.put { row with amount := 0, released := true }).Adds s.rows cl.locked (.release id) row.key
      (-row.amount) := by
    refine .put hlocked hid hrow hchange rfl rfl ⟨fun _ => rfl, hok.rolling⟩ ?_
    show (CapReservationRow.counted { row with amount := 0, released := true } : ℤ) = _
    rw [CapReservationRow.counted, if_neg (by simp [hsettled]), if_pos rfl]
    show (row.consumedAmount : ℤ) = row.counted + -row.amount
    omega
  simp only [giveBackReservation]
  split
  · next hkey =>
    have hrolling : row.key.IsRolling := ⟨_, _, hkey⟩
    exact ⟨⟨hstaged, hwrites, _, rfl, hdelete (hok.rolling hrolling)⟩, hrolling⟩
  · have hnext : RowWrite.Adds s.rows cl.locked (.release id) row.key (-row.amount)
        (if row.consumedAmount = 0 then .delete row.id else .put { row with amount := 0, released := true }) := by
      split
      · next hzero => exact hdelete hzero
      · exact hput
    split
    · next hzero => exact ⟨hwrites, _, _, _, rfl, hnext, .inl ⟨hstaged, by omega⟩⟩
    · exact ⟨hstaged, hwrites, _, rfl, hnext⟩

/-- What follows the claim of a row adds what the row then stands for. -/
theorem ownOk_afterClaim {phase : CapPhase} (hstaged : cl.staged = [])
    (hwrites : cl.writes = []) (hlocked : row.id ∈ cl.locked) (hid : row.id = op.id)
    (hrow : KeyedRows.lookup (·.id) row.id s.rows = some row) (hok : row.Ok) (hsettled : row.settled = false)
    (hnames : op.NamesPeriodOf cl.tenantId row) (h : op.afterClaim cl.tenantId row = some phase) : OwnOk s cl op phase := by
  have hcounted := counted_of_unsettled hok hsettled
  cases op with
  | release id =>
    cases h
    split
    · exact .inl ⟨hstaged, hwrites⟩
    · next hreleased =>
      exact ownOk_giveBackReservation hstaged hwrites hlocked hid hrow hok hsettled (by simpa using hreleased)
  | settle id capName periodStartIso actualAmount =>
    simp only [CapOp.afterClaim] at h
    split at h
    · cases h
    · cases h
      have hkey : row.key = .calendar cl.tenantId capName periodStartIso := hnames
      refine ownOk_bookCalendarDelta hstaged hwrites ?_
      refine .put hlocked hid hrow hsettled hkey hkey ⟨hok.released, hok.rolling⟩ ?_
      show (actualAmount : ℤ) = row.counted + (actualAmount - (row.amount + row.consumedAmount))
      omega
  | consume id capName periodStartIso units =>
    have hkey : row.key = .calendar cl.tenantId capName periodStartIso := hnames
    have hchange : (CapOp.consume id capName periodStartIso units).MayChange row := hsettled
    have hcalendar : ¬ row.key.IsRolling := by
      rw [hkey]
      exact fun ⟨_, _, hrolling⟩ => (nomatch hrolling)
    simp only [CapOp.afterClaim] at h
    split at h
    · next hreleased =>
      cases h
      refine ownOk_bookCalendarDelta hstaged hwrites ?_
      refine .put hlocked hid hrow hchange hkey hkey ⟨hok.released, fun h => absurd h hcalendar⟩ ?_
      rw [CapReservationRow.counted, if_neg (by simp [hsettled]), if_pos hreleased]
      have hamount := hok.released hreleased
      push_cast
      omega
    · next hreleased =>
      split at h
      · cases h
      · cases h
        refine ⟨hwrites, _, row.key, 0, rfl, .put hlocked hid hrow hchange rfl rfl
          ⟨fun h => absurd h hreleased, fun h => absurd h hcalendar⟩ ?_, .inl ⟨hstaged, rfl⟩⟩
        rw [CapReservationRow.counted, if_neg (by simp [hsettled]), if_neg hreleased]
        push_cast
        omega
  | _ => cases h

/-- A command that finds no row adds what the row it makes stands for. -/
theorem ownOk_withoutRow {phase : CapPhase} (hstaged : cl.staged = []) (hwrites : cl.writes = [])
    (h : op.withoutRow cl.tenantId = some phase) : OwnOk s cl op phase := by
  cases op with
  | settle id capName periodStartIso actualAmount =>
    cases h
    refine ownOk_bookCalendarDelta hstaged hwrites ?_
    exact .insert trivial rfl rfl ⟨fun h => (nomatch h), fun ⟨_, _, h⟩ => (nomatch h)⟩ rfl
  | consume id capName periodStartIso units =>
    cases h
    refine ownOk_bookCalendarDelta hstaged hwrites ?_
    exact .insert trivial rfl rfl ⟨fun _ => rfl, fun ⟨_, _, h⟩ => (nomatch h)⟩ rfl
  | _ => cases h

/-- A command begins with nothing written. -/
theorem ownOk_start (hstaged : cl.staged = []) (hwrites : cl.writes = []) (hown : op.runsOwn = true)
    (hreservation : op.onReservation = true) (tenantId : String) : OwnOk s cl op (op.start tenantId) := by
  cases op with
  | reserveCalendar id capName periodStartIso amount guard =>
    refine ⟨hstaged, hwrites, _, rfl, ?_⟩
    exact .insert trivial rfl rfl ⟨fun h => (nomatch h), fun ⟨_, _, h⟩ => (nomatch h)⟩ rfl
  | reserveRolling id capName windowDays amount guard =>
    refine ⟨⟨hstaged, hwrites, _, rfl, ?_⟩, _, _, rfl⟩
    exact .insert trivial rfl rfl ⟨fun h => (nomatch h), fun _ => rfl⟩ rfl
  | confirm id => cases hown
  | book capName periodStartIso amount direction guard => cases hreservation
  | incrementRolling capName amount => cases hown
  | _ => exact ⟨rfl, hstaged, hwrites⟩

end Plans

/-! ## Statements -/

section Statements

variable {cl : CapClient} {op : CapOp} {b : CapBooking} {w : RowWrite}

/-- A cap has counted what a booking gives back. -/
theorem ConservedInv.amount_le (h : ConservedInv s)
    (hadds : w.Adds s.rows locked op b.key b.delta) (hb : b.direction = .subtract) :
    (b.amount : ℤ) ≤ capValue (s.streams b.key) := by
  have hdelta : b.delta = -b.amount := by rw [CapBooking.delta, hb]
  rw [hdelta] at hadds
  have hall {old : CapReservationRow} {id : String} (hold : KeyedRows.lookup (·.id) id s.rows = some old)
      (hkey : old.key = b.key) : (old.counted : ℤ) ≤ capValue (s.streams b.key) := by
    rw [h.conserved, ← hkey]
    exact counted_le_reservedOn (KeyedRows.mem_of_lookup hold)
  have hnonneg : 0 ≤ capValue (s.streams b.key) := by
    rw [h.conserved]
    exact reservedOn_nonneg
  cases hadds with
  | insert _ _ _ _ hcounted => omega
  | put _ _ hold _ hkey _ _ hcounted =>
    have hle := hall hold hkey
    omega
  | delete _ _ hold _ hkey hcounted =>
    have hle := hall hold hkey
    omega

/-- An event that is appended to the stream read adds what its booking adds. -/
theorem event_apply {value : ℤ} {startedAt : ℕ} {es : List CapEvent}
    (hvalue : b.key.IsRolling ∨ capValue es = value)
    (hle : b.direction = .subtract → (b.amount : ℤ) ≤ capValue es) :
    (b.event value startedAt).apply (capValue es) = capValue es + b.delta := by
  obtain ⟨key, amount, direction, guard, window, incrementedAt, next⟩ := b
  cases key with
  | rolling tenantId capName =>
    cases direction with
    | add => rfl
    | subtract => rfl
    | touch => rfl
  | calendar tenantId capName periodStartIso =>
    obtain ⟨_, _, hkey⟩ | hvalue := hvalue
    · cases hkey
    · cases direction with
      | add =>
        show value + (amount : ℤ) = capValue es + amount
        rw [hvalue]
      | subtract =>
        have hle' : (amount : ℤ) ≤ capValue es := hle rfl
        show max 0 (value - (amount : ℤ)) = capValue es + -amount
        omega
      | touch =>
        show value = capValue es + 0
        omega

theorem unsettledRow_eq_some {tenantId id : String} (h : s.unsettledRow tenantId id = some row) :
    KeyedRows.lookup (·.id) id s.rows = some row ∧ row.id = id ∧ row.settled = false := by
  obtain ⟨hrow, hunsettled⟩ := Option.filter_eq_some_iff.1 h
  exact ⟨hrow, KeyedRows.key_of_lookup hrow, (of_decide_eq_true hunsettled).2⟩

theorem view_of_staged (h : (s.clients k).staged = []) (key : CapKey) : s.view k key = s.streams key := by
  rw [view, h, stagedOn, List.filter_nil, List.map_nil, List.append_nil]

/-- Each command names its own row: a settle or a consume the cap and the period of the row it claims, and a new
row the id of no reservation that is past. -/
def OwnRows (s : Caps n) : CapAct n → Prop
  | .beginOwn _ _ op | .call _ op => op.onReservation = true
  | .run k => match (s.clients k).phase with
    | .claim op => ∀ row ∈ s.unsettledRow (s.clients k).tenantId op.id, op.NamesPeriodOf (s.clients k).tenantId row
    | .write (some (.insert row)) => ∀ p ∈ s.past, p.id ≠ row.id
    | _ => True
  | _ => True

instance (s : Caps n) (a : CapAct n) : Decidable (s.OwnRows a) := by
  unfold OwnRows
  split
  · infer_instance
  · infer_instance
  · split <;> infer_instance
  · infer_instance

theorem finished_phase {writes : List RowWrite} (h : cl.own = some op) :
    (cl.finished writes locked).phase = .done := by
  rw [CapClient.finished, h]
  rfl

/-- A statement of a command with a transaction of its own. -/
theorem ownOk_runStep (h : ConservedInv s) (hown : (s.clients k).own = some op)
    (hclient : OwnOk s (s.clients k) op (s.clients k).phase) (hok : s.OwnRows (.run k)) (hrun : s.RunStep k cl) :
    ClientOk s cl := by
  have hclientOk {cl' : CapClient} (hown' : cl'.own = (s.clients k).own) (h : OwnOk s cl' op cl'.phase) :
      ClientOk s cl' := by
    unfold ClientOk
    rw [hown', hown]
    exact h
  cases hrun with
  | givenUp =>
    rw [CapClient.givenUp, if_pos (by rw [hown]; rfl)]
    exact clientOk_closed
  | fetched hp =>
    rw [hp] at hclient
    exact hclientOk rfl hclient
  | @unclaimed op' hp =>
    have hplain : op' = op ∧ (s.clients k).staged = [] ∧ (s.clients k).writes = [] := by
      obtain hp | hp := hp <;> rw [hp] at hclient <;> exact hclient
    refine hclientOk rfl ?_
    cases op' with
    | release id => exact .inl hplain.2
    | _ => exact hplain
  | @claimed op' row phase hp hrow _ hphase =>
    simp only [OwnRows] at hok
    rw [hp] at hclient hok
    obtain ⟨rfl, hstaged, hwrites⟩ := hclient
    have hnames := hok row hrow
    obtain ⟨hlookup, hid, hsettled⟩ := unsettledRow_eq_some hrow
    refine hclientOk rfl (ownOk_afterClaim hstaged hwrites ?_ hid (hid ▸ hlookup)
      (h.rows row (KeyedRows.mem_of_lookup hlookup)) hsettled hnames hphase)
    rw [hid]
    exact List.mem_cons_self
  | @settled op' phase hp hphase =>
    rw [hp] at hclient
    refine hclientOk rfl ?_
    cases op' <;> cases hphase <;> exact .inl hclient.2
  | rowless hp hphase =>
    rw [hp] at hclient
    obtain ⟨rfl, hstaged, hwrites⟩ := hclient
    exact hclientOk rfl (ownOk_withoutRow hstaged hwrites hphase)
  | confirmed hp _ _ _ _ =>
    rw [hp] at hclient
    exact hclient.elim
  | unconfirmed hp =>
    rw [hp] at hclient
    exact hclient.elim
  | @counterless b hp hview hb =>
    rw [hp] at hclient
    obtain ⟨hstaged, hwrites, w, hw, hadds⟩ := hclient
    have hle := h.amount_le hadds hb
    rw [← view_of_staged hstaged, hview] at hle
    refine hclientOk rfl ⟨hwrites, w, _, _, hw, hadds, .inl ⟨hstaged, ?_⟩⟩
    have hzero : (b.amount : ℤ) ≤ 0 := hle
    rw [CapBooking.delta, hb]
    show -(b.amount : ℤ) = 0
    omega
  | counted hp _ =>
    rw [hp] at hclient
    rw [view_of_staged hclient.1]
    exact hclientOk rfl ⟨hclient, le_rfl, fun _ => .inr rfl⟩
  | windowed hp _ =>
    rw [hp] at hclient
    rw [view_of_staged hclient.1.1]
    exact hclientOk rfl ⟨hclient.1, hclient.2, le_rfl⟩
  | unwindowed hp _ =>
    rw [hp] at hclient
    rw [view_of_staged hclient.1.1]
    exact hclientOk rfl ⟨hclient.1, le_rfl, fun _ => .inl hclient.2⟩
  | summed hp =>
    rw [hp] at hclient
    exact hclientOk rfl hclient
  | judged hp _ _ =>
    rw [hp] at hclient
    exact hclientOk rfl ⟨hclient.1, hclient.2.2, fun _ => .inl hclient.2.1⟩
  | @appended b value version readAt hp hversion _ =>
    rw [hp] at hclient
    obtain ⟨⟨hstaged, hwrites, w, hw, hadds⟩, -, hvalue⟩ := hclient
    rw [view_of_staged hstaged] at hversion
    refine hclientOk rfl ⟨hwrites, w, _, _, hw, hadds, .inr ⟨_, by rw [hstaged]; rfl, rfl, ?_⟩⟩
    exact event_apply (hvalue hversion) (h.amount_le hadds)
  | @inserted row hp _ hnew =>
    simp only [OwnRows] at hok
    rw [hp] at hclient hok
    obtain ⟨hwrites, w, key, delta, hw, hadds, hstaged⟩ := hclient
    cases hw
    cases hadds with
    | insert hinsert hid hkey hrow hcounted =>
      refine hclientOk rfl ?_
      rw [finished_phase hown]
      refine .inr ⟨(RowWrite.insert row).stamped s.now, key, delta, ?_, ?_, ⟨List.mem_cons_self, ?_⟩, hstaged⟩
      · rw [CapClient.finished, hwrites, List.nil_append]
      · exact .insert hinsert hid hkey ⟨hrow.released, hrow.rolling⟩ hcounted
      · intro hmem
        obtain hmem | hmem := List.mem_append.1 hmem
        · obtain ⟨r, hr, hrid⟩ := List.mem_map.1 hmem
          exact hnew r hr hrid
        · obtain ⟨p, hp, hpid⟩ := List.mem_map.1 hmem
          exact hok p hp hpid
  | @written w hp hnot =>
    rw [hp] at hclient
    obtain ⟨hwrites, w, key, delta, rfl, hadds, hstaged⟩ := hclient
    refine hclientOk rfl ?_
    rw [finished_phase hown]
    refine .inr ⟨w, key, delta, ?_, hadds, ?_, hstaged⟩
    · rw [CapClient.finished, hwrites]
      rfl
    · cases w with
      | insert row => exact absurd rfl (hnot row)
      | _ => trivial

/-- A handler runs no statement but those of a confirm. -/
theorem handlerOk_runStep (hown : (s.clients k).own = none) (hclient : HandlerOk s (s.clients k))
    (hrun : s.RunStep k cl) : ClientOk s cl := by
  have hclientOk {cl' : CapClient} (hown' : cl'.own = (s.clients k).own) (h : HandlerOk s cl') : ClientOk s cl' := by
    unfold ClientOk
    rw [hown', hown]
    exact h
  have hphase := hclient.phase
  have hfinished {writes : List RowWrite} {locked : List String} :
      ((s.clients k).finished writes locked).phase = .idle := by
    rw [CapClient.finished, hown]
    rfl
  cases hrun with
  | givenUp =>
    rw [CapClient.givenUp, if_neg (by rw [hown]; decide)]
    exact hclientOk rfl ⟨hclient.staged, .inl rfl, hclient.confirms, hclient.nodup⟩
  | @confirmed id row hp hunlocked hrow hreleased _ =>
    obtain ⟨hlookup, -, hsettled⟩ := unsettledRow_eq_some hrow
    refine hclientOk rfl ⟨hclient.staged, .inl hfinished, fun w hw => ?_, ?_⟩
    · obtain hw | hw := List.mem_append.1 hw
      · obtain ⟨id', row', rfl, hid', hrow'⟩ := hclient.confirms w hw
        exact ⟨id', row', rfl, List.mem_cons_of_mem _ hid', hrow'⟩
      · exact ⟨id, row, List.mem_singleton.1 hw, List.mem_cons_self, hlookup, hsettled, hreleased⟩
    · show (((s.clients k).writes ++ [RowWrite.confirm id]).map (·.id)).Nodup
      rw [List.map_append]
      refine List.nodup_append.2 ⟨hclient.nodup, List.nodup_singleton _, fun x hx y hy hxy => ?_⟩
      obtain ⟨w, hw, rfl⟩ := List.mem_map.1 hx
      obtain ⟨id', _, rfl, hid', -⟩ := hclient.confirms w hw
      have hsame : id' = id := hxy.trans (List.mem_singleton.1 hy)
      exact hunlocked (hsame ▸ hid')
  | unconfirmed _ =>
    refine hclientOk rfl ⟨hclient.staged, .inl hfinished, ?_, ?_⟩
    · show ∀ w ∈ (s.clients k).writes ++ [], _
      rw [List.append_nil]
      exact hclient.confirms
    · show (((s.clients k).writes ++ []).map RowWrite.id).Nodup
      rw [List.append_nil]
      exact hclient.nodup
  | unclaimed hp =>
    obtain hp | hp := hp <;> rw [hp] at hphase <;> obtain hphase | ⟨_, hphase⟩ := hphase <;> cases hphase
  | fetched hp | settled hp _ | rowless hp _ | counterless hp _ _ | counted hp _ | windowed hp _ | unwindowed hp _
  | summed hp | judged hp _ _ | appended hp _ _ | inserted hp _ _ | written hp _ | claimed hp _ _ _ =>
    rw [hp] at hphase
    obtain hphase | ⟨_, hphase⟩ := hphase <;> cases hphase

/-- A statement of any client, in its own transaction or a handler's. -/
theorem clientOk_runStep (h : ConservedInv s) (hok : s.OwnRows (.run k)) (hrun : s.RunStep k cl) : ClientOk s cl := by
  have hclient := h.clients k
  unfold ClientOk at hclient
  split at hclient
  · next hown => exact handlerOk_runStep hown hclient hrun
  · next hown => exact ownOk_runStep h hown hclient hok hrun

end Statements

/-! ## What other clients leave alone -/

/-- The rows a client has locked and the streams it has staged events on are as they were. -/
structure Frame (s s' : Caps n) (cl : CapClient) : Prop where
  rows : ∀ id ∈ cl.locked, KeyedRows.lookup (·.id) id s'.rows = KeyedRows.lookup (·.id) id s.rows
  unused : ∀ id ∈ cl.locked, id ∈ reservationIds s'.rows s'.past → id ∈ reservationIds s.rows s.past
  staged : ∀ key, stagedOn key cl.staged ≠ [] → s'.streams key = s.streams key
  grow : ∀ key, ∃ new, s'.streams key = s.streams key ++ new

section Frames

variable {cl : CapClient} {op : CapOp} {b : CapBooking} {w : RowWrite} {key : CapKey} {delta : ℤ}

/-- A write is about rows that its transaction has locked. -/
theorem adds_of_lookup {rows rows' : List CapReservationRow} (h : w.Adds rows locked op key delta)
    (hrows : ∀ id ∈ locked, KeyedRows.lookup (·.id) id rows' = KeyedRows.lookup (·.id) id rows) :
    w.Adds rows' locked op key delta := by
  cases h with
  | insert hinsert hid hkey hrow hcounted => exact .insert hinsert hid hkey hrow hcounted
  | put hlocked hid hold hchange hkey hkey' hrow hcounted =>
    exact .put hlocked hid ((hrows _ hlocked).trans hold) hchange hkey hkey' hrow hcounted
  | delete hlocked hid hold hchange hkey hcounted =>
    exact .delete hlocked hid ((hrows _ hlocked).trans hold) hchange hkey hcounted

/-- What other clients commit leaves a booking in progress as it is. -/
theorem Pending.frame (h : Pending s cl op b) (hf : Frame s s' cl) : Pending s' cl op b := by
  obtain ⟨hstaged, hwrites, w, hw, hadds⟩ := h
  exact ⟨hstaged, hwrites, w, hw, adds_of_lookup hadds hf.rows⟩

theorem stagedAdds_frame (h : StagedAdds s.streams cl.staged key delta) (hf : Frame s s' cl) :
    StagedAdds s'.streams cl.staged key delta := by
  obtain h | ⟨a, ha, hkey, happly⟩ := h
  · exact .inl h
  · have hsame : s'.streams key = s.streams key := by
      refine hf.staged key ?_
      rw [ha, stagedOn, List.filter_cons_of_pos (by simpa using hkey)]
      exact List.cons_ne_nil _ _
    exact .inr ⟨a, ha, hkey, by rw [hsame, happly]⟩

theorem version_le_frame {version : ℕ} (h : version ≤ (s.streams key).length) (hf : Frame s s' cl) :
    version ≤ (s'.streams key).length := by
  obtain ⟨new, hnew⟩ := hf.grow key
  rw [hnew, List.length_append]
  omega

theorem unused_frame (h : w.Unused s.rows s.past cl.locked) (hf : Frame s s' cl) :
    w.Unused s'.rows s'.past cl.locked := by
  cases w with
  | insert row => exact ⟨h.1, fun hmem => h.2 (hf.unused _ h.1 hmem)⟩
  | _ => trivial

/-- A command's own promise survives the steps of others. -/
theorem OwnOk.frame {phase : CapPhase} (h : OwnOk s cl op phase) (hf : Frame s s' cl) : OwnOk s' cl op phase := by
  cases phase with
  | fetch o => exact h
  | claim o => exact h
  | tombstone o => exact h
  | idle => exact h
  | confirm id => exact h
  | readCounter b => exact Pending.frame h hf
  | readVersion b => exact ⟨h.1.frame hf, h.2⟩
  | sumIncremented b version => exact ⟨h.1.frame hf, h.2.1, version_le_frame h.2.2 hf⟩
  | sumReleased b version incremented => exact ⟨h.1.frame hf, h.2.1, version_le_frame h.2.2 hf⟩
  | append b value version readAt =>
    obtain ⟨hpending, hle, hvalue⟩ := h
    refine ⟨hpending.frame hf, version_le_frame hle hf, fun hlen => ?_⟩
    obtain ⟨new, hnew⟩ := hf.grow b.key
    have hsame := eq_of_version hle hnew hlen
    rw [hsame] at hlen ⊢
    exact hvalue hlen
  | write o =>
    obtain ⟨hwrites, w, key, delta, hw, hadds, hstaged⟩ := h
    exact ⟨hwrites, w, key, delta, hw, adds_of_lookup hadds hf.rows, stagedAdds_frame hstaged hf⟩
  | done =>
    obtain h | ⟨w, key, delta, hw, hadds, hunused, hstaged⟩ := h
    · exact .inl h
    · exact .inr ⟨w, key, delta, hw, adds_of_lookup hadds hf.rows, unused_frame hunused hf,
        stagedAdds_frame hstaged hf⟩

/-- So does what holds of its client. -/
theorem ClientOk.frame (h : ClientOk s cl) (hf : Frame s s' cl) : ClientOk s' cl := by
  unfold ClientOk at *
  split at h
  · refine ⟨h.staged, h.phase, fun w hw => ?_, h.nodup⟩
    obtain ⟨id, row, hid, hlocked, hlookup, hopen⟩ := h.confirms w hw
    exact ⟨id, row, hid, hlocked, (hf.rows id hlocked).trans hlookup, hopen⟩
  · exact OwnOk.frame h hf

end Frames

/-! ## Commits -/

section Commits

variable {rows : List CapReservationRow} {past : List PastReservation} {locked : List String} {op : CapOp}
  {key : CapKey} {delta : ℤ} {w : RowWrite}

/-- A write leaves the other rows alone. -/
theorem lookup_apply {id : String} (h : w.id ≠ id) :
    KeyedRows.lookup (·.id) id (w.apply rows) = KeyedRows.lookup (·.id) id rows := by
  cases w with
  | insert row => exact KeyedRows.lookup_append_of_ne h
  | put row => exact KeyedRows.lookup_put_of_ne h
  | delete id => exact KeyedRows.lookup_delete_of_ne h
  | confirm id => exact KeyedRows.lookup_delete_of_ne h

/-- A row that is written has its id locked. -/
theorem id_mem_of_adds (h : w.Adds rows locked op key delta) (hunused : w.Unused rows past locked) :
    w.id ∈ locked := by
  cases h with
  | insert _ _ _ _ _ => exact hunused.1
  | put hlocked _ _ _ _ _ _ _ => exact hlocked
  | delete hlocked _ _ _ _ _ => exact hlocked

theorem past_of_adds (h : w.Adds rows locked op key delta) : w.past rows = [] := by
  cases h <;> rfl

/-- A write keeps the ids apart. -/
theorem nodup_apply (hnodup : (reservationIds rows past).Nodup) (h : w.Adds rows locked op key delta)
    (hunused : w.Unused rows past locked) : (reservationIds (w.apply rows) past).Nodup := by
  cases h with
  | insert _ _ _ _ _ => exact nodup_insert hnodup hunused.2
  | put _ _ _ _ _ _ _ _ => exact nodup_put_row hnodup
  | delete _ _ _ _ _ _ => exact nodup_delete_row hnodup

theorem ok_apply (hrows : ∀ r ∈ rows, r.Ok) (h : w.Adds rows locked op key delta) : ∀ r ∈ w.apply rows, r.Ok := by
  intro r hr
  cases h with
  | insert _ _ _ hrow _ =>
    obtain hr | hr := List.mem_append.1 hr
    · exact hrows r hr
    · rwa [List.mem_singleton.1 hr]
  | put _ _ _ _ _ _ hrow _ =>
    obtain rfl | hr := KeyedRows.mem_put hr
    · exact hrow
    · exact hrows r hr.1
  | delete _ _ _ _ _ _ => exact hrows r (KeyedRows.mem_delete.1 hr).1

/-- A write makes no other id. -/
theorem ids_apply {id : String} (h : w.Adds rows locked op key delta) (hid : w.id ≠ id)
    (hmem : id ∈ reservationIds (w.apply rows) past) : id ∈ reservationIds rows past := by
  obtain hmem | hmem := List.mem_append.1 hmem
  · refine List.mem_append_left _ ?_
    obtain ⟨r, hr, rfl⟩ := List.mem_map.1 hmem
    cases h with
    | insert _ _ _ _ _ =>
      obtain hr | hr := List.mem_append.1 hr
      · exact List.mem_map.2 ⟨r, hr, rfl⟩
      · rw [List.mem_singleton.1 hr] at hid
        exact absurd rfl hid
    | put _ _ _ _ _ _ _ _ =>
      obtain rfl | hr := KeyedRows.mem_put hr
      · exact absurd rfl hid
      · exact List.mem_map.2 ⟨r, hr.1, rfl⟩
    | delete _ _ _ _ _ _ => exact List.mem_map.2 ⟨r, (KeyedRows.mem_delete.1 hr).1, rfl⟩
  · exact List.mem_append_right _ hmem

/-- What the reservations stand for grows by what the write adds. -/
theorem reservedOn_apply (hnodup : (reservationIds rows past).Nodup) (h : w.Adds rows locked op key delta)
    (key' : CapKey) :
    reservedOn key' (w.apply rows) past = reservedOn key' rows past + if key = key' then delta else 0 := by
  cases h with
  | insert _ _ hkey _ hcounted =>
    rw [RowWrite.apply, reservedOn_insert, CapReservationRow.countedOn, hkey, hcounted]
  | put _ _ hold _ hkey hkey' _ hcounted =>
    rw [RowWrite.apply, reservedOn_put hnodup hold, CapReservationRow.countedOn, CapReservationRow.countedOn, hkey,
      hkey', hcounted]
    split <;> omega
  | delete _ _ hold _ hkey hcounted =>
    rw [RowWrite.apply, reservedOn_delete hnodup hold, CapReservationRow.countedOn, hkey]
    split <;> omega

/-- What is counted grows by what is staged. -/
theorem capValue_staged {streams : CapKey → List CapEvent} {staged : List Appended}
    (h : StagedAdds streams staged key delta) (key' : CapKey) :
    capValue (streams key' ++ stagedOn key' staged) =
      capValue (streams key') + if key = key' then delta else 0 := by
  obtain ⟨rfl, rfl⟩ | ⟨a, rfl, hkey, happly⟩ := h
  · rw [stagedOn, List.filter_nil, List.map_nil, List.append_nil, ite_self, add_zero]
  · by_cases hsame : key = key'
    · subst hsame
      rw [stagedOn, List.filter_cons_of_pos (by simpa using hkey), List.filter_nil, List.map_singleton, if_pos rfl,
        capValue, List.foldl_append]
      exact happly
    · rw [stagedOn, List.filter_cons_of_neg (by simpa [hkey] using hsame), List.filter_nil, List.map_nil,
        List.append_nil, if_neg hsame, add_zero]

end Commits

/-- A client's own step leaves the others what they see. -/
theorem frame_setClient {cl cl' : CapClient} : Frame s (s.setClient k cl) cl' where
  rows _ _ := rfl
  unused _ _ h := h
  staged _ _ := rfl
  grow _ := ⟨[], (List.append_nil _).symm⟩

theorem ConservedInv.setClient (h : ConservedInv s) {cl : CapClient} (hexclusive : Exclusive (s.setClient k cl))
    (hcl : ClientOk s cl) : ConservedInv (s.setClient k cl) where
  exclusive := hexclusive
  nodup := h.nodup
  rows := h.rows
  conserved := h.conserved
  clients j := by
    by_cases hj : j = k
    · subst hj
      rw [setClient_self]
      exact hcl.frame frame_setClient
    · rw [setClient_of_ne hj]
      exact (h.clients j).frame frame_setClient

/-- A transaction that wrote nothing commits nothing. -/
theorem commit_of_nothing (hstaged : (s.clients k).staged = []) (hwrites : (s.clients k).writes = []) :
    s.commit k = s.setClient k .closed := by
  have hview : s.view k = s.streams := funext (view_of_staged hstaged)
  simp only [Caps.commit, Caps.setClient, hview, hwrites, hstaged, List.foldl_nil, List.flatMap_nil, List.append_nil]

/-- What the clients that go on see of a commit or a sweep. -/
theorem ConservedInv.of_frame (h : ConservedInv s) (hexclusive : Exclusive s')
    (hnodup : (reservationIds s'.rows s'.past).Nodup) (hrows : ∀ r ∈ s'.rows, r.Ok)
    (hconserved : ∀ key, capValue (s'.streams key) = reservedOn key s'.rows s'.past)
    (hclients : ∀ j, s'.clients j = .closed ∨ s'.clients j = s.clients j ∧ Frame s s' (s.clients j)) :
    ConservedInv s' where
  exclusive := hexclusive
  nodup := hnodup
  rows := hrows
  conserved := hconserved
  clients j := by
    obtain hclosed | ⟨hsame, hframe⟩ := hclients j
    · rw [hclosed]
      exact clientOk_closed
    · rw [hsame]
      exact (h.clients j).frame hframe

theorem commit_clients {j : Fin n} : (s.commit k).clients j = if j = k then .closed else s.clients j := by
  show Function.update s.clients k .closed j = _
  rw [Function.update_apply]

/-- Claims stay exclusive over a commit. -/
theorem Exclusive.commit (h : Exclusive s) : Exclusive (s.commit k) := by
  have hclosed : Exclusive (s.setClient k .closed) := h.less (fun _ hid => (nomatch hid)) (.inl rfl)
  exact ⟨hclosed.locked, hclosed.staged⟩

/-- A handler's commit retires the rows it has confirmed. -/
theorem ConservedInv.commit_handler (h : ConservedInv s) (hclient : HandlerOk s (s.clients k)) :
    ConservedInv (s.commit k) := by
  have hretired := retired_confirms h.nodup hclient.nodup fun w hw => by
    obtain ⟨id, row, hid, -, hlookup, -⟩ := hclient.confirms w hw
    exact ⟨id, row, hid, hlookup⟩
  have hgone : ∀ id ∈ (s.clients k).writes.map (·.id), id ∈ (s.clients k).locked := by
    intro id hid
    obtain ⟨w, hw, rfl⟩ := List.mem_map.1 hid
    obtain ⟨id', _, rfl, hlocked, -⟩ := hclient.confirms w hw
    exact hlocked
  have hview : (s.commit k).streams = s.streams := funext (view_of_staged hclient.staged)
  refine h.of_frame h.exclusive.commit hretired.nodup (fun r hr => h.rows r (hretired.mem r hr)) (fun key => ?_)
    fun j => ?_
  · rw [hview, h.conserved]
    exact (hretired.reserved key).symm
  · rw [commit_clients]
    split
    · exact .inl rfl
    · next hj =>
      refine .inr ⟨rfl, fun id hid => hretired.lookup id fun hmem => ?_, fun id _ => hretired.ids id, ?_, ?_⟩
      · exact hj (h.exclusive.locked hid (hgone id hmem))
      · exact fun key _ => congrFun hview key
      · exact fun key => ⟨[], by rw [hview, List.append_nil]⟩

/-- A command's commit adds the same to the stream and to what the reservations stand for. -/
theorem ConservedInv.commit_own {op : CapOp} {w : RowWrite} {key : CapKey} {delta : ℤ} (h : ConservedInv s)
    (hwrites : (s.clients k).writes = [w]) (hadds : w.Adds s.rows (s.clients k).locked op key delta)
    (hunused : w.Unused s.rows s.past (s.clients k).locked)
    (hstaged : StagedAdds s.streams (s.clients k).staged key delta) : ConservedInv (s.commit k) := by
  have hrows : (s.commit k).rows = w.apply s.rows := by
    show (s.clients k).writes.foldl RowWrite.apply s.rows = _
    rw [hwrites, List.foldl_cons, List.foldl_nil]
  have hpast : (s.commit k).past = s.past := by
    show s.past ++ (s.clients k).writes.flatMap (RowWrite.past s.rows) = s.past
    rw [hwrites, List.flatMap_singleton, past_of_adds hadds, List.append_nil]
  have hlocked := id_mem_of_adds hadds hunused
  refine h.of_frame h.exclusive.commit ?_ ?_ (fun key' => ?_) fun j => ?_
  · rw [hrows, hpast]
    exact nodup_apply h.nodup hadds hunused
  · rw [hrows]
    exact ok_apply h.rows hadds
  · rw [hrows, hpast, reservedOn_apply h.nodup hadds, ← h.conserved]
    exact capValue_staged hstaged key'
  · rw [commit_clients]
    split
    · exact .inl rfl
    · next hj =>
      have hother : ∀ id ∈ (s.clients j).locked, w.id ≠ id := by
        rintro id hid rfl
        exact hj (h.exclusive.locked hid hlocked)
      refine .inr ⟨rfl, fun id hid => ?_, fun id hid hmem => ?_, fun key' hkey => ?_, fun key' => ⟨_, rfl⟩⟩
      · rw [hrows]
        exact lookup_apply (hother id hid)
      · rw [hrows, hpast] at hmem
        exact ids_apply hadds (hother id hid) hmem
      · have hnone : stagedOn key' (s.clients k).staged = [] :=
          not_not.1 fun hmine => hj (h.exclusive.staged hkey hmine)
        show s.streams key' ++ stagedOn key' (s.clients k).staged = s.streams key'
        rw [hnone, List.append_nil]

/-- A commit moves a counter and what is reserved on it by the same amount. -/
theorem ConservedInv.commit (h : ConservedInv s) (hc : (s.clients k).CanCommit) : ConservedInv (s.commit k) := by
  have hclient := h.clients k
  unfold ClientOk at hclient
  split at hclient
  · exact h.commit_handler hclient
  · next op hown =>
    obtain ⟨-, hdone | ⟨hnone, -⟩⟩ := hc
    · rw [hdone] at hclient
      obtain ⟨hstaged, hwrites⟩ | ⟨w, key, delta, hwrites, hadds, hunused, hstaged⟩ := hclient
      · rw [commit_of_nothing hstaged hwrites]
        exact h.setClient (h.exclusive.less (fun _ hid => (nomatch hid)) (.inl rfl)) clientOk_closed
      · exact h.commit_own hwrites hadds hunused hstaged
    · rw [hnone] at hown
      cases hown

/-- A tombstone that is swept stands for as much as before. -/
theorem ConservedInv.sweepTombstone (h : ConservedInv s)
    (hrow : KeyedRows.lookup (·.id) row.id s.rows = some row) (hfree : ∀ k, row.id ∉ (s.clients k).locked) :
    ConservedInv { s with rows := KeyedRows.delete (·.id) row.id s.rows, past := s.past ++ [row.past] } := by
  have hretired := retired_one h.nodup hrow
  refine h.of_frame ⟨h.exclusive.locked, h.exclusive.staged⟩ hretired.nodup
    (fun r hr => h.rows r (hretired.mem r hr)) (fun key => (h.conserved key).trans (hretired.reserved key).symm)
    fun j => .inr ⟨rfl, fun id hid => hretired.lookup id fun hmem => ?_, fun id _ => hretired.ids id, fun _ _ => rfl,
      fun _ => ⟨[], (List.append_nil _).symm⟩⟩
  rw [List.mem_singleton.1 hmem] at hid
  exact hfree j hid

/-- Every step that names the cap and period of its row keeps the invariant. -/
theorem ConservedInv.step (h : ConservedInv s) (hok : s.OwnRows a) (hs : s.step a = some s') : ConservedInv s' := by
  have hexclusive := h.exclusive.step hs
  cases CapsStep.of_step hs with
  | tick =>
    exact h.of_frame hexclusive h.nodup h.rows h.conserved fun j =>
      .inr ⟨rfl, fun _ _ => rfl, fun _ _ hid => hid, fun _ _ => rfl, fun _ => ⟨[], (List.append_nil _).symm⟩⟩
  | @beginOwn k tenantId op _ hown => exact h.setClient hexclusive (ownOk_start rfl rfl hown hok tenantId)
  | beginHandler => exact h.setClient hexclusive ⟨rfl, .inl rfl, fun _ hw => (nomatch hw), .nil⟩
  | @call k op hown hhandler =>
    refine h.setClient hexclusive ?_
    have hclient := h.clients k
    unfold ClientOk at hclient ⊢
    rw [hown] at hclient
    show match (s.clients k).own with | none => _ | some op => _
    rw [hown]
    cases op with
    | confirm id => exact ⟨hclient.staged, .inr ⟨id, rfl⟩, hclient.confirms, hclient.nodup⟩
    | book capName periodStartIso amount direction guard => cases hok
    | incrementRolling capName amount => cases hok
    | _ => cases hhandler
  | run hrun => exact h.setClient hexclusive (clientOk_runStep h hok hrun)
  | abort => exact h.setClient hexclusive clientOk_closed
  | commit hc => exact h.commit hc
  | sweepTombstone hrow _ hfree => exact h.sweepTombstone hrow hfree

/-! ## Main result -/

/-- The command would be a repetition: no open reservation is left to release or to confirm, or the reservation
is settled or past. -/
def Finished (s : Caps n) : CapOp → Prop
  | .release id | .confirm id => ∀ row ∈ s.rows, row.id = id → row.settled = true ∨ row.released = true
  | .settle id .. => (∃ row ∈ s.rows, row.id = id ∧ row.settled = true) ∨ ∃ p ∈ s.past, p.id = id
  | _ => False

/-- Every cap has counted what its reservations stand for, each reservation once, and a command that repeats
what is finished changes nothing. -/
structure Conserved (s : Caps n) : Prop where
  counters : ∀ key, capValue (s.streams key) = reservedOn key s.rows s.past
  once : (reservationIds s.rows s.past).Nodup
  repeated : ∀ k op, (s.clients k).own = some op → (s.clients k).CanCommit → s.Finished op →
    (s.commit k).streams = s.streams ∧ (s.commit k).rows = s.rows ∧ (s.commit k).past = s.past
  reconfirmed : ∀ k id, (s.clients k).own = none → RowWrite.confirm id ∈ (s.clients k).writes →
    ¬ s.Finished (.confirm id)

/-- A command writes nothing that is finished. -/
theorem not_finished_of_adds {op : CapOp} {w : RowWrite} {key : CapKey} {delta : ℤ}
    (h : ConservedInv s) (hadds : w.Adds s.rows locked op key delta) (hunused : w.Unused s.rows s.past locked) :
    ¬ s.Finished op := by
  intro hfinished
  have hexisting {old : CapReservationRow} (hold : KeyedRows.lookup (·.id) old.id s.rows = some old)
      (hid : old.id = op.id) (hchange : op.MayChange old) : False := by
    have hmem := KeyedRows.mem_of_lookup hold
    cases op with
    | release id | confirm id =>
      obtain hsettled | hreleased := hfinished old hmem hid
      · rw [hchange.1] at hsettled
        cases hsettled
      · rw [hchange.2] at hreleased
        cases hreleased
    | settle id capName periodStartIso actualAmount =>
      obtain ⟨row, hrow, hrowid, hsettled⟩ | ⟨p, hp, hpid⟩ := hfinished
      · have hsame : row = old :=
          List.inj_on_of_nodup_map (nodup_rows h.nodup) hrow hmem (hrowid.trans hid.symm)
        rw [hsame, show old.settled = false from hchange] at hsettled
        cases hsettled
      · exact (List.nodup_append.1 h.nodup).2.2 old.id (List.mem_map.2 ⟨old, hmem, rfl⟩) p.id
          (List.mem_map.2 ⟨p, hp, rfl⟩) (hid.trans hpid.symm)
    | _ => exact hfinished
  cases hadds with
  | @insert row hinsert hid _ _ _ =>
    cases op with
    | release id | confirm id => exact hinsert
    | settle id capName periodStartIso actualAmount =>
      refine hunused.2 ?_
      obtain ⟨r, hr, hrid, -⟩ | ⟨p, hp, hpid⟩ := hfinished
      · exact List.mem_append_left _ (List.mem_map.2 ⟨r, hr, hrid.trans hid.symm⟩)
      · exact List.mem_append_right _ (List.mem_map.2 ⟨p, hp, hpid.trans hid.symm⟩)
    | _ => exact hfinished
  | put _ hid hold hchange _ _ _ _ =>
    have hsame := KeyedRows.key_of_lookup hold
    exact hexisting (hsame ▸ hold) (hsame.trans hid) hchange
  | delete _ hid hold hchange _ _ => exact hexisting hold hid hchange

/-- What the invariant says of the counters. -/
theorem ConservedInv.conservation (h : ConservedInv s) : Conserved s where
  counters := h.conserved
  once := h.nodup
  repeated k op hown hc hfinished := by
    have hclient := h.clients k
    unfold ClientOk at hclient
    rw [hown] at hclient
    obtain ⟨-, hdone | ⟨hnone, -⟩⟩ := hc
    · rw [hdone] at hclient
      obtain ⟨hstaged, hwrites⟩ | ⟨w, key, delta, -, hadds, hunused, -⟩ := hclient
      · rw [commit_of_nothing hstaged hwrites]
        exact ⟨rfl, rfl, rfl⟩
      · exact absurd hfinished (not_finished_of_adds h hadds hunused)
    · rw [hnone] at hown
      cases hown
  reconfirmed k id hown hid hfinished := by
    have hclient := h.clients k
    unfold ClientOk at hclient
    rw [hown] at hclient
    obtain ⟨id', row, hsame, -, hlookup, hsettled, hreleased⟩ := hclient.confirms _ hid
    cases hsame
    obtain hfinished | hfinished := hfinished row (KeyedRows.mem_of_lookup hlookup) (KeyedRows.key_of_lookup hlookup)
    · rw [hsettled] at hfinished
      cases hfinished
    · rw [hreleased] at hfinished
      cases hfinished

/-- In every such run the counters are what the reservations stand for, and what is repeated changes nothing. -/
theorem conserved_of_run (s : Caps n) (hr : Run step OwnRows initial s) : Conserved s :=
  (hr.invariant conservedInv_initial fun _ _ _ h hok hs => h.step hok hs).conservation

/-- One reservation is consumed, released and settled, and its tombstone swept; one is confirmed by a handler;
one of a rolling cap is given back. -/
def reservationsRun : List (CapAct 2) :=
  let january := "2026-01-01T00:00:00Z"
  ownRun 0 (.reserveCalendar "a" "mails" january 5 none) 3 ++ ownRun 0 (.consume "a" "mails" january 2) 3 ++
    ownRun 1 (.release "a") 5 ++ ownRun 0 (.settle "a" "mails" january 3) 5 ++ [.sweepTombstone "a"] ++
    ownRun 0 (.reserveCalendar "b" "mails" january 4 none) 3 ++
    [.beginHandler 1 "t", .call 1 (.confirm "b"), .run 1, .commit 1] ++
    ownRun 0 (.reserveRolling "c" "tokens" 7 6 none) 5 ++ ownRun 1 (.release "c") 5

/-- `reservationsRun` leaves seven mails counted and no row. -/
theorem conserved_of_run_settled : ∃ s : Caps 2, Run step OwnRows initial s ∧
    capValue (s.streams (.calendar "t" "mails" "2026-01-01T00:00:00Z")) = 7 ∧ s.rows = [] ∧ s.Conserved := by
  obtain ⟨s, hr, hs⟩ := exists_run_of_execOk step (fun s a => decide (s.OwnRows a)) (initial : Caps 2) reservationsRun
    (fun s => capValue (s.streams (.calendar "t" "mails" "2026-01-01T00:00:00Z")) = 7 ∧ s.rows = [])
    (fun _ _ h => of_decide_eq_true h) (by decide +kernel) (by decide +kernel)
  have hvalue := of_decide_eq_true hs
  exact ⟨s, hr, hvalue.1, hvalue.2, conserved_of_run s hr⟩

/-- A reservation for January is consumed in part and released; one more unit is consumed through a handle for
February. -/
def consumeInFebruary : List (CapAct 1) :=
  let january := "2026-01-01T00:00:00Z"
  ownRun 0 (.reserveCalendar "a" "mails" january 5 none) 3 ++ ownRun 0 (.consume "a" "mails" january 2) 3 ++
    ownRun 0 (.release "a") 5 ++ ownRun 0 (.consume "a" "mails" "2026-02-01T00:00:00Z" 1) 5

/-- The consume for February counts a unit that no reservation of February stands for. -/
theorem not_conserved : ¬ ∀ s : Caps 1, Run step (fun _ _ => True) initial s → s.Conserved := by
  intro h
  let february := CapKey.calendar "t" "mails" "2026-02-01T00:00:00Z"
  obtain ⟨s, hr, hs⟩ := exists_run_of_exec step (initial : Caps 1) consumeInFebruary
    (fun s => capValue (s.streams february) = 1 ∧ reservedOn february s.rows s.past = 0) (by decide +kernel)
  obtain ⟨hcounted, hreserved⟩ := of_decide_eq_true hs
  have hsame := (h s hr).counters february
  rw [hcounted, hreserved] at hsame
  cases hsame

end Caps

end Kumiko
