import Kumiko.Library.Mirrors
import Kumiko.Ledger.Reversals

/-!
# Schedule periods

The net effect of a schedule period's entries is to be nothing or one booking, and the host's merge is to call
the period posted exactly where a confirmation would book nothing. A confirmation holds its lock until its
transaction ends; what it finds is right where references mean what the code takes them for
(`booked_once_of_run`).
-/

namespace Kumiko

open Transition

/-! ## References -/

/-- The text could be the reference of a schedule period. -/
def isScheduleReference (text : String) : Bool :=
  "schedule:".toList.isPrefixOf text.toList && (text.toList.drop 9).contains ':'

theorem isScheduleReference_scheduleReference (scheduleId period : String) :
    isScheduleReference (scheduleReference scheduleId period) = true := by
  have hhead : "schedule:".toList = ['s', 'c', 'h', 'e', 'd', 'u', 'l', 'e', ':'] := by decide
  have hcolon : ":".toList = [':'] := by decide
  simp [isScheduleReference, scheduleReference, String.toList_append, hhead, hcolon]

/-- The reference of a schedule period is no id. -/
theorem not_isScheduleReference {text : String} (h : (uuidIn text).isSome) : isScheduleReference text = false := by
  cases hs : isScheduleReference text with
  | false => rfl
  | true =>
    obtain ⟨rest, hrest⟩ := List.isPrefixOf_iff_prefix.1 (Bool.and_eq_true_iff.1 hs).1
    have hhead : "schedule:".toList = ['s', 'c', 'h', 'e', 'd', 'u', 'l', 'e', ':'] := by decide
    rw [hhead] at hrest
    rw [uuidIn, ← hrest] at h
    simp [uuidBytes, hexDigit] at h

theorem mem_findReversedIds {x : String} {rows : List LedgerEntry} :
    x ∈ findReversedIds rows ↔ (∃ r ∈ rows, r.reference = some x) ∧ ∃ o ∈ rows, o.id = x := by
  simp only [findReversedIds, List.mem_flatMap, Option.mem_toList, Option.filter_eq_some_iff,
    decide_eq_true_eq, List.mem_map]
  constructor
  · rintro ⟨r, hr, href, ho⟩
    exact ⟨⟨r, hr, href⟩, ho⟩
  · rintro ⟨⟨r, hr, href⟩, ho⟩
    exact ⟨r, hr, href, ho⟩

/-- What a confirmation finds among the rows. -/
def alreadyBooked (rows : List LedgerEntry) (tenantId reference : String) : Option LedgerEntry :=
  let candidates := selectCandidates rows tenantId reference
  activeBooking candidates (selectStornos rows tenantId candidates)

theorem mem_selectCandidates {rows : List LedgerEntry} {tenantId reference : String} {c : LedgerEntry} :
    c ∈ selectCandidates rows tenantId reference ↔
      c ∈ rows ∧ c.tenantId = tenantId ∧ c.reference = some reference := by
  simp [selectCandidates, List.mem_filter]

variable {tenantId : String} {es es' : List LedgerEntry} {e : EntryData}

theorem mem_selectStornos {rows candidates : List LedgerEntry} {r : LedgerEntry} :
    r ∈ selectStornos rows tenantId candidates ↔
      r ∈ rows ∧ r.tenantId = tenantId ∧ ∃ c ∈ candidates, r.reference = some c.id := by
  simp [selectStornos, List.mem_filter]

/-- Without an active booking, some row carries the id of each candidate. -/
theorem reversed_of_activeBooking {candidates stornos : List LedgerEntry} (h : activeBooking candidates stornos = none)
    {c : LedgerEntry} (hc : c ∈ candidates) : ∃ r ∈ candidates ++ stornos, r.reference = some c.id := by
  have hnone := List.find?_eq_none.1 h c hc
  have hmem : c.id ∈ findReversedIds (candidates ++ stornos) := by simpa using hnone
  exact (mem_findReversedIds.1 hmem).1

/-- A candidate is active where no candidate and no reversal refers to it. -/
theorem isSome_activeBooking {candidates stornos : List LedgerEntry} :
    (activeBooking candidates stornos).isSome ↔
      ∃ c ∈ candidates, ∀ r ∈ candidates ++ stornos, r.reference ≠ some c.id := by
  constructor
  · intro h
    obtain ⟨c, hc⟩ := Option.isSome_iff_exists.1 h
    have hmem := List.mem_of_find?_eq_some hc
    have hfound := List.find?_some hc
    have hfree : c.id ∉ findReversedIds (candidates ++ stornos) := of_decide_eq_true hfound
    refine ⟨c, hmem, fun r hr href => hfree ?_⟩
    exact mem_findReversedIds.2 ⟨⟨r, hr, href⟩, c, List.mem_append_left _ hmem, rfl⟩
  · rintro ⟨c, hc, hfree⟩
    cases h : activeBooking candidates stornos with
    | some b => rfl
    | none =>
      obtain ⟨r, hr, href⟩ := reversed_of_activeBooking h hc
      exact absurd href (hfree r hr)

/-- When the merge calls a month posted. -/
theorem posted_iff {scheduleId asOf : String} {projection : List ProjectedPeriod} {rows : List LedgerEntry}
    {month : ScheduleMonth} (h : month ∈ mergeScheduleActuals scheduleId projection rows asOf) :
    month.status = .posted ↔ ∃ t ∈ rows, t.reference = some (scheduleReference scheduleId month.period) ∧
      ∀ r ∈ rows, r.reference ≠ some t.id := by
  obtain ⟨projected, _, rfl⟩ := List.mem_map.1 h
  dsimp only
  split
  · next active hfound =>
    have hactive := List.find?_some hfound
    have hp := of_decide_eq_true hactive
    have hmem := List.mem_of_find?_eq_some hfound
    refine iff_of_true rfl ⟨active, hmem, hp.1, fun r hr href => hp.2 ?_⟩
    exact mem_findReversedIds.2 ⟨⟨r, hr, href⟩, active, hmem, rfl⟩
  · next hnone =>
    refine iff_of_false ?_ ?_
    · have hne : ∀ past : Bool, (if past then ScheduleMonthStatus.isOpen else .forecast) ≠ .posted := by decide
      exact hne _
    · rintro ⟨t, ht, href, hfree⟩
      refine List.find?_eq_none.1 hnone t ht (decide_eq_true ⟨href, fun hmem => ?_⟩)
      obtain ⟨⟨r, hr, href'⟩, _⟩ := mem_findReversedIds.1 hmem
      exact hfree r hr href'

/-! ## What an entry and a client know -/

/-- A create carries no reference of a schedule period, a booking carries its own, and a reversal reverses an
entry that is there and no reversal. -/
structure PeriodOk (es : List LedgerEntry) (tenantId : String) (e : EntryData) : Prop where
  manual : e.origin = .manual → ∀ text, e.reference = some text → isScheduleReference text = false
  booked : ∀ key, e.origin = .booked key → e.reference = some key ∧ isScheduleReference key = true ∧
    tenantId ≠ systemTenantId
  original : ∀ x, e.reverses = some x → ∃ o ∈ es, o.id = x ∧ o.reverses = none

/-- What an entry of a period rests on stays there. -/
theorem PeriodOk.mono (h : PeriodOk es tenantId e) (hsub : ∀ o ∈ es, o ∈ es') : PeriodOk es' tenantId e where
  manual := h.manual
  booked := h.booked
  original x hx := by
    obtain ⟨o, ho, hrest⟩ := h.original x hx
    exact ⟨o, hsub o ho, hrest⟩

def Reversed (es : List LedgerEntry) (b : LedgerEntry) : Prop := ∃ r ∈ es, r.reverses = some b.id

/-- What is reversed stays reversed. -/
theorem Reversed.mono {b : LedgerEntry} (h : Reversed es b) (hsub : ∀ o ∈ es, o ∈ es') : Reversed es' b := by
  obtain ⟨r, hr, hrev⟩ := h
  exact ⟨r, hsub r hr, hrev⟩

/-- A tenant has at most one booking of a period that is not reversed. -/
def BookedOnce (es : List LedgerEntry) : Prop :=
  ∀ b ∈ es, ∀ b' ∈ es, ∀ key, b.origin = .booked key → b'.origin = .booked key → b.tenantId = b'.tenantId →
    ¬ Reversed es b → ¬ Reversed es b' → b = b'

/-- The client may book the entry: all its tenant's bookings of the period are reversed, and nobody else books
one, since the client holds the lock. -/
structure MayBook (es : List LedgerEntry) (tenantId : String) (locks : List String) (e : EntryData) : Prop where
  ok : PeriodOk es tenantId e
  locked : ∀ key, e.origin = .booked key → key ∈ locks
  reversed : ∀ key, e.origin = .booked key → ∀ b ∈ es, b.origin = .booked key → b.tenantId = tenantId →
    Reversed es b

def ConfirmSchedulePeriodPayload.reference (p : ConfirmSchedulePeriodPayload) : String :=
  scheduleReference p.scheduleId p.period

/-- What a phase knows of the entries in sight. -/
def LedgerClient.PhaseOk (es : List LedgerEntry) (cl : LedgerClient) : Prop :=
  match cl.phase with
  | .scheduleAccounts p sch _ => sch.id = p.scheduleId ∧ cl.tenantId ≠ systemTenantId
  | .candidates p sch => (sch.id = p.scheduleId ∧ cl.tenantId ≠ systemTenantId) ∧ p.reference ∈ cl.locks
  | .stornos p sch cs => ((sch.id = p.scheduleId ∧ cl.tenantId ≠ systemTenantId) ∧ p.reference ∈ cl.locks) ∧
      (∀ c ∈ cs, c ∈ es) ∧ ∀ b ∈ es, b.origin = .booked p.reference → b.tenantId = cl.tenantId → b ∈ cs
  | .insert e => e.origin ≠ .manual ∧ MayBook es cl.tenantId cl.locks e
  | _ => True

/-- Entries come in that are no bookings under the client's locks. -/
theorem MayBook.mono {locks : List String} (h : MayBook es tenantId locks e) (hsub : ∀ o ∈ es, o ∈ es')
    (hnew : ∀ b ∈ es', ∀ key ∈ locks, b.origin = .booked key → b ∈ es) : MayBook es' tenantId locks e where
  ok := h.ok.mono hsub
  locked := h.locked
  reversed key hkey b hb hbooked ht :=
    (h.reversed key hkey b (hnew b hb key (h.locked key hkey) hbooked) hbooked ht).mono hsub

variable {cl : LedgerClient}

theorem LedgerClient.PhaseOk.mono (h : cl.PhaseOk es)
    (hsub : ∀ o ∈ es, o ∈ es') (hnew : ∀ b ∈ es', ∀ key ∈ cl.locks, b.origin = .booked key → b ∈ es) :
    cl.PhaseOk es' := by
  unfold PhaseOk at h ⊢
  cases hp : cl.phase with
  | stornos p sch cs =>
    rw [hp] at h
    obtain ⟨hlock, hcs, hall⟩ := h
    refine ⟨hlock, fun c hc => hsub c (hcs c hc), fun b hb hbooked ht => ?_⟩
    exact hall b (hnew b hb _ hlock.2 hbooked) hbooked ht
  | insert e =>
    rw [hp] at h
    exact ⟨h.1, h.2.mono hsub hnew⟩
  | scheduleAccounts p sch rest => rwa [hp] at h
  | candidates p sch => rwa [hp] at h
  | _ => trivial

/-- What one client has booked and locked, over what is committed. -/
structure LedgerClient.Periods (entries : List LedgerEntry) (cl : LedgerClient) : Prop where
  own : ∀ e ∈ cl.own, PeriodOk (entries ++ cl.own) e.tenantId e.toEntryData
  phase : cl.PhaseOk (entries ++ cl.own)
  held : ∀ e ∈ cl.own, ∀ key, e.origin = .booked key → key ∈ cl.held
  single : BookedOnce (entries ++ cl.own)

theorem LedgerClient.Periods.fresh {entries : List LedgerEntry} {inTx : Bool}
    (h : BookedOnce entries) : (⟨inTx, tenantId, [], [], [], .idle⟩ : LedgerClient).Periods entries where
  own _ he := nomatch he
  phase := trivial
  held _ he := nomatch he
  single := by rwa [List.append_nil]

/-- A booking is added where the others of its period are reversed. -/
theorem BookedOnce.concat {es : List LedgerEntry} {id tenantId : String} {locks : List String}
    (h : BookedOnce es) (hmay : MayBook es tenantId locks e) : BookedOnce (es ++ [⟨e, id, tenantId⟩]) := by
  have hsub : ∀ o ∈ es, o ∈ es ++ [⟨e, id, tenantId⟩] := fun o ho => List.mem_append_left _ ho
  intro b hb b' hb' key hkey hkey' ht hun hun'
  rcases List.mem_append.1 hb with hold | hnew
  · rcases List.mem_append.1 hb' with hold' | hnew'
    · exact h b hold b' hold' key hkey hkey' ht (fun hr => hun (hr.mono hsub)) fun hr => hun' (hr.mono hsub)
    · cases List.mem_singleton.1 hnew'
      exact absurd ((hmay.reversed key hkey' b hold hkey ht).mono hsub) hun
  · cases List.mem_singleton.1 hnew
    rcases List.mem_append.1 hb' with hold' | hnew'
    · exact absurd ((hmay.reversed key hkey b' hold' hkey' ht.symm).mono hsub) hun'
    · exact (List.mem_singleton.1 hnew').symm

namespace Books

variable {n : ℕ} {s s' : Books n} {k : Fin n} {id : String} {a : LedgerAct n} {reference : String}

/-- References are what the code takes them for, and the system tenant confirms nothing. -/
def ReferencesMean (s : Books n) (k : Fin n) : LedgerPhase → Prop
  | .createAccounts p [] =>
    ∀ text ∈ p.reference, isScheduleReference text = false ∧ ∀ e ∈ s.allEntries, e.id ≠ text
  | .schedule p => (s.clients k).tenantId ≠ systemTenantId ∧
      ∀ schedule ∈ s.findSchedule (s.clients k).tenantId p.scheduleId, schedule.id = p.scheduleId
  | .reversals _ original => original.reverses = none
  | _ => True

instance (s : Books n) (k : Fin n) (phase : LedgerPhase) : Decidable (s.ReferencesMean k phase) :=
  match phase with
  | .createAccounts _ [] => inferInstanceAs (Decidable (∀ text ∈ _, _ ∧ ∀ e ∈ _, _))
  | .schedule _ => inferInstanceAs (Decidable (_ ∧ ∀ schedule ∈ s.findSchedule _ _, _))
  | .reversals .. => inferInstanceAs (Decidable (_ = _))
  | .createAccounts _ (_ :: _) | .idle | .scheduleAccounts .. | .candidates .. | .stornos .. | .original _
  | .insert _ => .isTrue trivial

def PlainReferences (s : Books n) : LedgerAct n → Prop
  | .run k _ => s.ChecksAlone k (s.clients k).phase ∧ s.ReferencesMean k (s.clients k).phase
  | _ => True

instance (s : Books n) (a : LedgerAct n) : Decidable (s.PlainReferences a) :=
  match a with
  | .run k _ => inferInstanceAs (Decidable (s.ChecksAlone k (s.clients k).phase ∧ _))
  | .command .. | .beginTx .. | .fail .. | .commit .. | .rollback .. | .putAccount .. | .putSchedule .. =>
    .isTrue trivial

/-- A step of this kind is alone with its reversal too. -/
theorem PlainReferences.loneReversal (h : s.PlainReferences a) : s.LoneReversal a := by
  cases a with
  | run k id => exact h.1
  | _ => trivial

structure PeriodInv (s : Books n) : Prop where
  once : OnceInv s
  uuid : ∀ e ∈ s.allEntries, (uuidIn e.id).isSome
  names : ∀ e ∈ s.allEntries, ∀ o ∈ s.allEntries, e.reference = some o.id → e.reverses = some o.id
  entries : ∀ e ∈ s.entries, PeriodOk s.entries e.tenantId e.toEntryData
  committed : BookedOnce s.entries
  clients : ∀ k, (s.clients k).Periods s.entries
  locks : ∀ j k, j ≠ k → ∀ key ∈ (s.clients j).locks, key ∉ (s.clients k).locks

/-- No period has entries. -/
theorem periodInv_initial : PeriodInv (initial : Books n) where
  once := onceInv_initial
  uuid e he := by
    rcases mem_allEntries.1 he with hc | ⟨_, hown⟩
    · cases hc
    · cases hown
  names e he := by
    rcases mem_allEntries.1 he with hc | ⟨_, hown⟩
    · cases hc
    · cases hown
  entries _ he := nomatch he
  committed _ hb := nomatch hb
  clients _ := .fresh fun _ hb => nomatch hb
  locks _ _ _ _ hkey := nomatch hkey

theorem mem_allEntries_setClient {e : LedgerEntry} (h : e ∈ (s.setClient k cl).allEntries) :
    e ∈ s.allEntries ∨ e ∈ cl.own := by
  rcases mem_allEntries.1 h with hc | ⟨j, hown⟩
  · exact .inl (mem_allEntries.2 (.inl hc))
  · rcases eq_or_ne j k with rfl | hne
    · rw [setClient_self] at hown
      exact .inr hown
    · rw [setClient_of_ne hne] at hown
      exact .inl (mem_allEntries.2 (.inr ⟨j, hown⟩))

/-- A client's own step keeps what holds of periods. -/
theorem PeriodInv.setClient (h : PeriodInv s) (honce : OnceInv (s.setClient k cl))
    (huuid : ∀ e ∈ (s.setClient k cl).allEntries, (uuidIn e.id).isSome)
    (hnames : ∀ e ∈ (s.setClient k cl).allEntries, ∀ o ∈ (s.setClient k cl).allEntries,
      e.reference = some o.id → e.reverses = some o.id)
    (hcl : cl.Periods s.entries) (hlocks : ∀ j, j ≠ k → ∀ key ∈ (s.clients j).locks, key ∉ cl.locks) :
    PeriodInv (s.setClient k cl) where
  once := honce
  uuid := huuid
  names := hnames
  entries := h.entries
  committed := h.committed
  clients j := by
    rcases eq_or_ne j k with rfl | hne
    · rwa [setClient_self]
    · rw [setClient_of_ne hne]
      exact h.clients j
  locks i j hij := by
    rcases eq_or_ne i k with rfl | hi
    · rw [setClient_self, setClient_of_ne hij.symm]
      exact fun key hkey hj => hlocks j hij.symm key hj hkey
    · rw [setClient_of_ne hi]
      rcases eq_or_ne j k with rfl | hj
      · rw [setClient_self]
        exact hlocks i hi
      · rw [setClient_of_ne hj]
        exact h.locks i j hij

/-- The client has nothing that was not there before. -/
theorem PeriodInv.setOwn (h : PeriodInv s) (honce : OnceInv (s.setClient k cl))
    (hsub : ∀ e ∈ cl.own, e ∈ (s.clients k).own) (hcl : cl.Periods s.entries)
    (hlocks : ∀ j, j ≠ k → ∀ key ∈ (s.clients j).locks, key ∉ cl.locks) : PeriodInv (s.setClient k cl) := by
  have hall : ∀ e ∈ (s.setClient k cl).allEntries, e ∈ s.allEntries := fun e he =>
    (mem_allEntries_setClient he).elim id fun hown => mem_allEntries.2 (.inr ⟨k, hsub e hown⟩)
  exact h.setClient honce (fun e he => h.uuid e (hall e he))
    (fun e he o ho => h.names e (hall e he) o (hall o ho)) hcl hlocks

theorem PeriodInv.setPhase (h : PeriodInv s) (honce : OnceInv (s.setClient k cl))
    (hown : cl.own = (s.clients k).own) (hheld : ∀ key ∈ (s.clients k).held, key ∈ cl.held)
    (hlocks : ∀ j, j ≠ k → ∀ key ∈ (s.clients j).locks, key ∉ cl.locks) (hphase : cl.PhaseOk (s.view k)) :
    PeriodInv (s.setClient k cl) := by
  have hk := h.clients k
  refine h.setOwn honce (fun e he => by rwa [hown] at he) ⟨?_, ?_, ?_, ?_⟩ hlocks
  · rw [hown]; exact hk.own
  · rw [hown]; exact hphase
  · rw [hown]; exact fun e he key hkey => hheld key (hk.held e he key hkey)
  · rw [hown]; exact hk.single

theorem PeriodInv.reset {inTx : Bool} (h : PeriodInv s) :
    PeriodInv (s.setClient k ⟨inTx, tenantId, [], [], [], .idle⟩) :=
  h.setOwn h.once.reset (fun _ he => nomatch he) (.fresh h.committed) fun _ _ _ _ hkey => nomatch hkey

theorem PeriodInv.lock (h : PeriodInv s) (hlocks : ∀ key ∈ cl.locks, key ∈ (s.clients k).locks) :
    ∀ j, j ≠ k → ∀ key ∈ (s.clients j).locks, key ∉ cl.locks := fun j hj key hkey hmem =>
  h.locks j k hj key hkey (hlocks key hmem)

theorem PeriodInv.view_ok (h : PeriodInv s) {e : LedgerEntry} (he : e ∈ s.view k) :
    PeriodOk (s.view k) e.tenantId e.toEntryData :=
  (List.mem_append.1 he).elim (fun hc => (h.entries e hc).mono fun _ ho => List.mem_append_left _ ho)
    ((h.clients k).own e)

/-- What carries an entry's id is its reversal. -/
theorem PeriodInv.reversed_of_reference (h : PeriodInv s) {r c : LedgerEntry} (hr : r ∈ s.view k) (hc : c ∈ s.view k)
    (href : r.reference = some c.id) : Reversed (s.view k) c :=
  ⟨r, hr, h.names r (mem_allEntries_of_view hr) c (mem_allEntries_of_view hc) href⟩

/-- A confirmation that finds no active booking may book. -/
theorem PeriodInv.bookingMay {p : ConfirmSchedulePeriodPayload} {schedule : LedgerSchedule}
    {candidates : List LedgerEntry} (h : PeriodInv s) (hp : (s.clients k).phase = .stornos p schedule candidates)
    (hnone : activeBooking candidates (selectStornos (s.view k) (s.clients k).tenantId candidates) = none) :
    MayBook (s.view k) (s.clients k).tenantId (s.clients k).locks (bookingEntry p schedule) := by
  have hphase : (s.clients k).PhaseOk (s.view k) := (h.clients k).phase
  simp only [LedgerClient.PhaseOk, hp] at hphase
  obtain ⟨⟨⟨hid, htenant⟩, hlock⟩, hcs, hall⟩ := hphase
  have horigin : (bookingEntry p schedule).origin = .booked p.reference := by
    show EntryOrigin.booked (scheduleReference schedule.id p.period) = _
    rw [hid]
    rfl
  refine ⟨⟨fun hm => ?_, fun key hkey => ?_, fun _ hx => nomatch hx⟩, fun key hkey => ?_, fun key hkey b hb hbooked ht => ?_⟩
  · cases hm
  · cases horigin.symm.trans hkey
    exact ⟨rfl, isScheduleReference_scheduleReference _ _, htenant⟩
  · cases horigin.symm.trans hkey
    exact hlock
  · cases horigin.symm.trans hkey
    obtain ⟨r, hr, href⟩ := reversed_of_activeBooking hnone (hall b hb hbooked ht)
    have hview : r ∈ s.view k := by
      rcases List.mem_append.1 hr with hc | hstorno
      · exact hcs r hc
      · exact (mem_selectStornos.1 hstorno).1
    exact h.reversed_of_reference hview hb href

/-- A mirror of an entry that reverses nothing may be booked. -/
theorem PeriodInv.mirrorMay {p : ReverseTransactionPayload} {original : LedgerEntry} (h : PeriodInv s)
    (hp : (s.clients k).phase = .reversals p original) (hplain : original.reverses = none) :
    MayBook (s.view k) (s.clients k).tenantId (s.clients k).locks (mirrorEntry p original) := by
  have hmem : original ∈ s.view k ∧ original.status = .posted := by
    have hphase := (h.once.books.clients k).phase
    rwa [hp] at hphase
  refine ⟨⟨fun hm => ?_, fun key hkey => ?_, fun x hx => ?_⟩, fun key hkey => ?_, fun key hkey => ?_⟩
  · cases hm
  · cases hkey
  · cases hx
    exact ⟨original, hmem.1, rfl, hplain⟩
  · cases hkey
  · cases hkey

/-- A lookup keeps what its phase has found. -/
theorem PeriodInv.advances {phase : LedgerPhase} (h : PeriodInv s) (hok : s.ReferencesMean k (s.clients k).phase)
    (ha : s.Advances k (s.clients k).phase phase) :
    ({ s.clients k with phase } : LedgerClient).PhaseOk (s.view k) := by
  have hphase : (s.clients k).PhaseOk (s.view k) := (h.clients k).phase
  generalize hp : (s.clients k).phase = old at hok ha
  simp only [LedgerClient.PhaseOk, hp] at hphase
  cases ha with
  | createAccount _ => trivial
  | schedule hfound _ => exact ⟨hok.2 _ hfound, hok.1⟩
  | scheduleAccount _ => exact hphase
  | candidates =>
    refine ⟨hphase, fun c hc => (mem_selectCandidates.1 hc).1, fun b hb hbooked ht => ?_⟩
    exact mem_selectCandidates.2 ⟨hb, ht, ((h.view_ok hb).booked _ hbooked).1⟩
  | unbooked hnone => exact ⟨fun hm => (nomatch hm), h.bookingMay hp hnone⟩
  | original _ _ => trivial
  | unreversed _ => exact ⟨fun hm => (nomatch hm), h.mirrorMay hp hok⟩

/-- The entry a client books is one it may book, and its reference names an entry only if it is its reversal. -/
theorem PeriodInv.booking (h : PeriodInv s) (hok : s.ReferencesMean k (s.clients k).phase)
    (hb : Booking (s.clients k).phase e) : MayBook (s.view k) (s.clients k).tenantId (s.clients k).locks e ∧
      ∀ o ∈ s.allEntries, e.reference = some o.id → e.reverses = some o.id := by
  have hphase : (s.clients k).PhaseOk (s.view k) := (h.clients k).phase
  have hnamed := h.once.phase k
  generalize hp : (s.clients k).phase = old at hok hb hnamed
  simp only [LedgerClient.PhaseOk, hp] at hphase
  cases hb with
  | manual =>
    refine ⟨⟨⟨fun _ text ht => (hok text ht).1, fun _ hkey => (nomatch hkey), fun _ hx => (nomatch hx)⟩,
      fun _ hkey => (nomatch hkey), fun _ hkey => (nomatch hkey)⟩, fun o ho href => ?_⟩
    exact absurd rfl ((hok o.id href).2 o ho)
  | insert =>
    obtain ⟨hne, hmay⟩ := hphase
    refine ⟨hmay, fun o ho href => ?_⟩
    cases horigin : e.origin with
    | manual => exact absurd horigin hne
    | booked key =>
      obtain ⟨hkey, hschedule, _⟩ := hmay.ok.booked key horigin
      cases hkey.symm.trans href
      rw [not_isScheduleReference (h.uuid o ho)] at hschedule
      cases hschedule
    | reversal x key =>
      have hrev : e.reverses = some x := by rw [EntryData.reverses, horigin]
      rw [hrev, ← (hnamed x hrev).1, href]

/-- An insert keeps one active booking for a period. -/
theorem PeriodInv.insert (h : PeriodInv s) (hok : s.ReferencesMean k (s.clients k).phase)
    (hb : Booking (s.clients k).phase e) (hfresh : s.Fresh id e) :
    PeriodInv (s.finish k [⟨e, id, (s.clients k).tenantId⟩]) := by
  obtain ⟨hmay, hnames⟩ := h.booking hok hb
  have hk := h.clients k
  have hsub : ∀ o ∈ s.view k, o ∈ s.entries ++ ((s.clients k).own ++ [⟨e, id, (s.clients k).tenantId⟩]) := by
    intro o ho
    rw [← List.append_assoc]
    exact List.mem_append_left _ ho
  have hall : ∀ o ∈ (s.finish k [⟨e, id, (s.clients k).tenantId⟩]).allEntries,
      o ∈ s.allEntries ∨ o = ⟨e, id, (s.clients k).tenantId⟩ := by
    intro o ho
    rcases mem_allEntries_setClient ho with hold | hown
    · exact .inl hold
    · rcases List.mem_append.1 hown with hold | hnew
      · exact .inl (mem_allEntries.2 (.inr ⟨k, hold⟩))
      · exact .inr (List.mem_singleton.1 hnew)
  refine h.setClient (h.once.insert hb hfresh) (fun o ho => ?_) (fun r hr o ho href => ?_)
    ⟨fun o ho => ?_, trivial, fun o ho key hkey => ?_, ?_⟩ (h.lock fun _ hkey => hkey)
  · rcases hall o ho with hold | rfl
    · exact h.uuid o hold
    · exact hfresh.1
  · rcases hall r hr with holdr | rfl
    · rcases hall o ho with hold | rfl
      · exact h.names r holdr o hold href
      · exact absurd href (hfresh.2.2 r holdr).2
    · rcases hall o ho with hold | rfl
      · exact hnames o hold href
      · exact absurd href hfresh.2.1
  · rcases List.mem_append.1 ho with hold | hnew
    · exact (hk.own o hold).mono hsub
    · rw [List.mem_singleton.1 hnew]
      exact hmay.ok.mono hsub
  · rcases List.mem_append.1 ho with hold | hnew
    · exact List.mem_append_right _ (hk.held o hold key hkey)
    · rw [List.mem_singleton.1 hnew] at hkey
      exact hmay.locked key hkey
  · show BookedOnce (s.entries ++ ((s.clients k).own ++ [⟨e, id, (s.clients k).tenantId⟩]))
    rw [← List.append_assoc]
    exact hk.single.concat hmay

/-- A client does not know of the bookings under its locks that another one commits: there are none. -/
theorem PeriodInv.not_booked_elsewhere (h : PeriodInv s) {j : Fin n} (hne : j ≠ k) {b : LedgerEntry} {key : String}
    (hb : b ∈ (s.clients k).own) (hbooked : b.origin = .booked key) : key ∉ (s.clients j).locks :=
  h.locks k j hne.symm key (List.mem_append_right _ ((h.clients k).held b hb key hbooked))

/-- A commit frees the locks of its bookings. -/
theorem PeriodInv.commit (h : PeriodInv s) (hidle : (s.clients k).phase = .idle) :
    PeriodInv { s with entries := s.view k, clients := Function.update s.clients k .closed } := by
  have hk := h.clients k
  have hreset : PeriodInv (s.setClient k .closed) := h.reset
  have hall : ∀ o ∈ Books.allEntries { s with entries := s.view k, clients := Function.update s.clients k .closed },
      o ∈ s.allEntries := by
    intro o ho
    rcases mem_allEntries.1 ho with hc | hown
    · exact mem_allEntries_of_view hc
    · have hmem : o ∈ (s.setClient k .closed).allEntries := mem_allEntries.2 (.inr hown)
      exact (mem_allEntries_setClient hmem).elim id fun hnil => nomatch hnil
  refine ⟨h.once.commit hidle, fun o ho => h.uuid o (hall o ho),
    fun r hr o ho => h.names r (hall r hr) o (hall o ho), fun e he => h.view_ok he, hk.single, fun j => ?_,
    hreset.locks⟩
  show (Function.update s.clients k .closed j).Periods (s.view k)
  rcases eq_or_ne j k with rfl | hne
  · rw [Function.update_self]
    exact .fresh hk.single
  rw [Function.update_of_ne hne]
  have hj := h.clients j
  have hsub : ∀ o ∈ s.view j, o ∈ s.view k ++ (s.clients j).own := by
    intro o ho
    rcases List.mem_append.1 ho with hc | hown
    · exact List.mem_append_left _ (List.mem_append_left _ hc)
    · exact List.mem_append_right _ hown
  have hsub' : ∀ o ∈ s.view k, o ∈ s.view k ++ (s.clients j).own := fun o ho => List.mem_append_left _ ho
  have hnew : ∀ b ∈ s.view k ++ (s.clients j).own, ∀ key ∈ (s.clients j).locks, b.origin = .booked key →
      b ∈ s.view j := by
    intro b hb key hkey hbooked
    rcases List.mem_append.1 hb with hview | hown
    · rcases List.mem_append.1 hview with hc | hother
      · exact List.mem_append_left _ hc
      · exact absurd hkey (h.not_booked_elsewhere hne hother hbooked)
    · exact List.mem_append_right _ hown
  refine ⟨fun e he => (hj.own e he).mono hsub, hj.phase.mono hsub hnew, hj.held, ?_⟩
  -- a period that the client has booked, the other one has not
  intro b hb b' hb' key hkey hkey' ht hun hun'
  by_cases hlock : key ∈ (s.clients j).locks
  · exact hj.single b (hnew b hb key hlock hkey) b' (hnew b' hb' key hlock hkey') key hkey hkey' ht
      (fun hr => hun (hr.mono hsub)) fun hr => hun' (hr.mono hsub)
  · have hview : ∀ c ∈ s.view k ++ (s.clients j).own, c.origin = .booked key → c ∈ s.view k := by
      intro c hc hbooked
      rcases List.mem_append.1 hc with hview | hown
      · exact hview
      · exact absurd (List.mem_append_right _ (hj.held c hown key hbooked)) hlock
    exact hk.single b (hview b hb hkey) b' (hview b' hb' hkey') key hkey hkey' ht
      (fun hr => hun (hr.mono hsub')) fun hr => hun' (hr.mono hsub')

theorem phaseOk_start (call : LedgerCall) (cl : LedgerClient) (es : List LedgerEntry) :
    ({ cl with phase := call.start } : LedgerClient).PhaseOk es := by
  cases call <;> trivial

/-- A step whose references mean what the code takes them for keeps the invariant. -/
theorem PeriodInv.step (h : PeriodInv s) (hok : s.PlainReferences a) (hs : s.step a = some s') : PeriodInv s' := by
  have honce := h.once.step hok.loneReversal hs
  cases BooksStep.of_step hs with
  | beginTx => exact h.reset
  | command _ _ => exact h.setPhase honce rfl (fun _ hkey => hkey) (h.lock fun _ hkey => hkey) (phaseOk_start ..)
  | fail =>
    exact h.setPhase honce rfl (fun _ hkey => hkey) (h.lock fun key hkey => List.mem_append_right _ hkey) trivial
  | rollback => exact h.reset
  | commit hidle => exact h.commit hidle
  | putAccount => exact ⟨honce, h.uuid, h.names, h.entries, h.committed, h.clients, h.locks⟩
  | putSchedule => exact ⟨honce, h.uuid, h.names, h.entries, h.committed, h.clients, h.locks⟩
  | @run k id _ hrun =>
    obtain ⟨_, hmean⟩ : s.ChecksAlone k (s.clients k).phase ∧ s.ReferencesMean k (s.clients k).phase := hok
    cases hrun with
    | giveUp =>
      exact h.setPhase honce rfl (fun _ hkey => hkey) (h.lock fun key hkey => List.mem_append_right _ hkey) trivial
    | goto ha =>
      exact h.setPhase honce rfl (fun _ hkey => hkey) (h.lock fun _ hkey => hkey) (h.advances hmean ha)
    | lock hp hfree =>
      have hphase := (h.clients k).phase
      simp only [LedgerClient.PhaseOk, hp] at hphase
      refine h.setPhase honce rfl (fun _ hkey => hkey) (fun j hj key hkey hmem => ?_)
        ⟨hphase, List.mem_append_left _ List.mem_cons_self⟩
      rcases List.mem_cons.1 hmem with rfl | hold
      · exact hfree ⟨j, hj, hkey⟩
      · exact h.locks j k hj key hkey hold
    | alreadyBooked =>
      exact h.setPhase honce (List.append_nil _) (fun _ hkey => List.mem_append_right _ hkey)
        (h.lock fun _ hkey => hkey) trivial
    | insert hb hfresh => exact h.insert hmean hb hfresh

theorem periodInv_of_run (hr : Run step PlainReferences initial s) : PeriodInv s :=
  hr.invariant periodInv_initial fun _ _ _ hi hok hs => hi.step hok hs

/-! ## Net effect -/

/-- The committed entries of a tenant that belong to a schedule period. -/
def periodEntries (s : Books n) (tenantId reference : String) : List LedgerEntry :=
  s.entries.filter fun e => e.tenantId = tenantId ∧ e.periodReference = some reference

/-- What entries add to an account. -/
def netEffect (es : List LedgerEntry) (accountId : String) : ℤ := (es.map (·.effect accountId)).sum

theorem mem_periodEntries {tenantId reference : String} {e : LedgerEntry} :
    e ∈ s.periodEntries tenantId reference ↔
      e ∈ s.entries ∧ e.tenantId = tenantId ∧ e.periodReference = some reference := by
  simp [periodEntries, List.mem_filter]

/-- The entry that a reversal reverses. -/
def originalOf (s : Books n) (r : LedgerEntry) : LedgerEntry :=
  (s.entries.find? fun o => r.reverses = some o.id).getD r

/-- A reversal, its original and the period of both. -/
theorem PeriodInv.original (h : PeriodInv s) {r : LedgerEntry} (hr : r ∈ s.entries) (hrev : r.reverses ≠ none) :
    s.originalOf r ∈ s.entries ∧ r.reverses = some (s.originalOf r).id ∧ (s.originalOf r).reverses = none ∧
      (s.originalOf r).tenantId = r.tenantId ∧ (s.originalOf r).periodReference = r.periodReference := by
  obtain ⟨x, key, horigin⟩ : ∃ x key, r.origin = .reversal x key := by
    cases horigin : r.origin with
    | reversal x key => exact ⟨x, key, rfl⟩
    | manual => exact absurd (by rw [EntryData.reverses, horigin]) hrev
    | booked key => exact absurd (by rw [EntryData.reverses, horigin]) hrev
  have hx : r.reverses = some x := by rw [EntryData.reverses, horigin]
  have hinj : ∀ o ∈ s.entries, ∀ o' ∈ s.entries, o.id = o'.id → o = o' := fun _ ho _ ho' hid =>
    List.inj_on_of_nodup_map h.once.books.nodup ho ho' hid
  obtain ⟨o, ho, hid, _, _, _, hkey⟩ := h.once.books.mirrors r hr x key horigin
  obtain ⟨o₁, ho₁, hid₁, hplain⟩ := (h.entries r hr).original x hx
  obtain ⟨_, o₂, ho₂, hid₂, htenant⟩ := h.once.named r hr x hx
  cases hinj o₁ ho₁ o ho (hid₁.trans hid.symm)
  cases hinj o₂ ho₂ o ho (hid₂.trans hid.symm)
  have horiginal : s.originalOf r = o := by
    unfold originalOf
    cases hfind : s.entries.find? fun o => r.reverses = some o.id with
    | none => exact absurd (decide_eq_true (by rw [hx, hid])) (List.find?_eq_none.1 hfind o ho)
    | some o' =>
      have hfound := List.find?_some hfind
      have hid' : r.reverses = some o'.id := of_decide_eq_true hfound
      rw [hx, ← hid] at hid'
      exact hinj o' (List.mem_of_find?_eq_some hfind) o ho (Option.some.inj hid').symm
  rw [horiginal]
  refine ⟨ho, hid ▸ hx, hplain, htenant, ?_⟩
  rw [← hkey, LedgerEntry.periodReference, horigin]

/-- A reversed entry has one reversal. -/
theorem OnceInv.reversal_unique (h : OnceInv s) {r r' : LedgerEntry} {x : String} (hr : r ∈ s.entries)
    (hr' : r' ∈ s.entries) (hx : r.reverses = some x) (hx' : r'.reverses = some x) : r = r' := by
  have hcount := h.committed x
  rw [reversalCount, List.countP_eq_length_filter] at hcount
  have hmem : r ∈ s.entries.filter fun e => e.reverses = some x := List.mem_filter.2 ⟨hr, decide_eq_true hx⟩
  have hmem' : r' ∈ s.entries.filter fun e => e.reverses = some x := List.mem_filter.2 ⟨hr', decide_eq_true hx'⟩
  cases hes : s.entries.filter fun e => e.reverses = some x with
  | nil => rw [hes] at hmem; cases hmem
  | cons e rest =>
    rw [hes] at hcount hmem hmem'
    obtain rfl : rest = [] := List.length_eq_zero_iff.1 (by simpa using hcount)
    rw [List.mem_singleton.1 hmem, List.mem_singleton.1 hmem']

/-- What belongs to a period and reverses nothing is a booking. -/
theorem PeriodInv.booked_of_not_reversal (h : PeriodInv s) {b : LedgerEntry}
    (hb : b ∈ s.entries) (hperiod : b.periodReference = some reference) (hplain : b.reverses = none)
    (hreference : isScheduleReference reference = true) : b.origin = .booked reference := by
  cases horigin : b.origin with
  | manual =>
    rw [LedgerEntry.periodReference, horigin] at hperiod
    rw [(h.entries b hb).manual horigin reference hperiod] at hreference
    cases hreference
  | booked key =>
    rw [LedgerEntry.periodReference, horigin] at hperiod
    rw [Option.some.inj hperiod]
  | reversal x key =>
    rw [EntryData.reverses, horigin] at hplain
    cases hplain

/-- The entries of a period come to nothing or to one booking. -/
theorem PeriodInv.net (h : PeriodInv s) (tenantId : String) (hreference : isScheduleReference reference = true) :
    (∀ accountId, netEffect (s.periodEntries tenantId reference) accountId = 0) ∨
      ∃ b ∈ s.periodEntries tenantId reference, b.origin = .booked reference ∧
        ∀ accountId, netEffect (s.periodEntries tenantId reference) accountId = b.effect accountId := by
  have hnodup : (s.periodEntries tenantId reference).Nodup :=
    (List.Nodup.of_map _ h.once.books.nodup).filter _
  have hmem : ∀ r ∈ (s.periodEntries tenantId reference).toFinset, r.reverses ≠ none →
      s.originalOf r ∈ (s.periodEntries tenantId reference).toFinset ∧ ¬ (s.originalOf r).reverses ≠ none := by
    intro r hr hrev
    obtain ⟨hrs, ht, hp⟩ := mem_periodEntries.1 (List.mem_toFinset.1 hr)
    obtain ⟨ho, _, hplain, htenant, hperiod⟩ := h.original hrs hrev
    refine ⟨List.mem_toFinset.2 (mem_periodEntries.2 ⟨ho, htenant.trans ht, hperiod.trans hp⟩), ?_⟩
    exact not_not.2 hplain
  have hsum : ∀ accountId, netEffect (s.periodEntries tenantId reference) accountId =
      ∑ b ∈ Mirrors.unmirrored (s.periodEntries tenantId reference).toFinset (·.reverses ≠ none) s.originalOf,
        b.effect accountId := by
    intro accountId
    rw [netEffect, ← List.sum_toFinset _ hnodup]
    refine Mirrors.sum_eq_sum_unmirrored hmem (fun r hr hrev r' hr' hrev' heq => ?_) fun r hr hrev => ?_
    · have hrs := (mem_periodEntries.1 (List.mem_toFinset.1 hr)).1
      have hrs' := (mem_periodEntries.1 (List.mem_toFinset.1 hr')).1
      have hid := (h.original hrs hrev).2.1
      rw [heq] at hid
      exact h.once.reversal_unique hrs hrs' hid (h.original hrs' hrev').2.1
    · have hrs := (mem_periodEntries.1 (List.mem_toFinset.1 hr)).1
      obtain ⟨ho, hid, _⟩ := h.original hrs hrev
      exact h.once.books.net ho hrs hid accountId
  have hbooked : ∀ b ∈ Mirrors.unmirrored (s.periodEntries tenantId reference).toFinset (·.reverses ≠ none)
      s.originalOf, b ∈ s.periodEntries tenantId reference ∧ b.origin = .booked reference ∧
        ¬ Reversed s.entries b := by
    intro b hb
    obtain ⟨⟨hbs, hplain⟩, hfree⟩ := Mirrors.mem_unmirrored.1 hb
    have hbs := List.mem_toFinset.1 hbs
    obtain ⟨hbe, ht, hp⟩ := mem_periodEntries.1 hbs
    refine ⟨hbs, h.booked_of_not_reversal hbe hp (not_not.1 hplain) hreference, fun ⟨r, hr, hrev⟩ => ?_⟩
    have hne : r.reverses ≠ none := by rw [hrev]; exact fun hn => nomatch hn
    obtain ⟨ho, hid, _, htenant, hperiod⟩ := h.original hr hne
    have hoid : (s.originalOf r).id = b.id := Option.some.inj (hid.symm.trans hrev)
    have horiginal : s.originalOf r = b := List.inj_on_of_nodup_map h.once.books.nodup ho hbe hoid
    rw [horiginal] at htenant hperiod
    have hrp : r ∈ s.periodEntries tenantId reference :=
      mem_periodEntries.2 ⟨hr, htenant.symm.trans ht, hperiod.symm.trans hp⟩
    exact hfree r (List.mem_toFinset.2 hrp) hne horiginal
  rcases Finset.eq_empty_or_nonempty (Mirrors.unmirrored (s.periodEntries tenantId reference).toFinset
      (·.reverses ≠ none) s.originalOf) with hempty | ⟨b, hb⟩
  · refine .inl fun accountId => ?_
    rw [hsum, hempty, Finset.sum_empty]
  · obtain ⟨hbs, horigin, hfree⟩ := hbooked b hb
    have hsingle : Mirrors.unmirrored (s.periodEntries tenantId reference).toFinset (·.reverses ≠ none)
        s.originalOf = {b} := by
      refine Finset.eq_singleton_iff_unique_mem.2 ⟨hb, fun b' hb' => ?_⟩
      obtain ⟨hbs', horigin', hfree'⟩ := hbooked b' hb'
      obtain ⟨hbe, ht, _⟩ := mem_periodEntries.1 hbs
      obtain ⟨hbe', ht', _⟩ := mem_periodEntries.1 hbs'
      exact h.committed b' hbe' b hbe reference horigin' horigin (ht'.trans ht.symm) hfree' hfree
    refine .inr ⟨b, hbs, horigin, fun accountId => ?_⟩
    rw [hsum, hsingle, Finset.sum_singleton]

/-! ## The merge -/

/-- The rows of the tenant's list. -/
def listed (s : Books n) (tenantId : String) : List LedgerEntry :=
  s.entries.filter fun e => VisibleTo tenantId e.tenantId

theorem mem_listed {e : LedgerEntry} :
    e ∈ s.listed tenantId ↔ e ∈ s.entries ∧ VisibleTo tenantId e.tenantId := by
  simp [listed, List.mem_filter]

/-- What carries a schedule reference is not of the system tenant. -/
theorem PeriodInv.not_system_of_reference (h : PeriodInv s) {t : LedgerEntry} (ht : t ∈ s.entries)
    (href : t.reference = some reference) (hreference : isScheduleReference reference = true) :
    t.tenantId ≠ systemTenantId := by
  cases horigin : t.origin with
  | manual =>
    rw [(h.entries t ht).manual horigin reference href] at hreference
    cases hreference
  | booked key => exact ((h.entries t ht).booked key horigin).2.2
  | reversal x key =>
    have hx : t.reverses = some x := by rw [EntryData.reverses, horigin]
    obtain ⟨href', o, ho, hid, _⟩ := h.once.named t ht x hx
    cases href.symm.trans href'
    have huuid := h.uuid o (mem_allEntries.2 (.inl ho))
    rw [hid] at huuid
    rw [not_isScheduleReference huuid] at hreference
    cases hreference

/-- The merge and the confirmation see the same bookings. -/
theorem PeriodInv.posted_iff_booked (h : PeriodInv s) (tenantId : String)
    (hreference : isScheduleReference reference = true) :
    (∃ t ∈ s.listed tenantId, t.reference = some reference ∧ ∀ r ∈ s.listed tenantId, r.reference ≠ some t.id) ↔
      (alreadyBooked s.entries tenantId reference).isSome := by
  rw [alreadyBooked, isSome_activeBooking]
  constructor
  · rintro ⟨t, ht, href, hfree⟩
    obtain ⟨hte, hvisible⟩ := mem_listed.1 ht
    have htenant : t.tenantId = tenantId := hvisible.resolve_right (h.not_system_of_reference hte href hreference)
    refine ⟨t, mem_selectCandidates.2 ⟨hte, htenant, href⟩, fun r hr => ?_⟩
    have hlisted : r ∈ s.listed tenantId := by
      rcases List.mem_append.1 hr with hc | hstorno
      · obtain ⟨hre, hrt, _⟩ := mem_selectCandidates.1 hc
        exact mem_listed.2 ⟨hre, .inl hrt⟩
      · obtain ⟨hre, hrt, _⟩ := mem_selectStornos.1 hstorno
        exact mem_listed.2 ⟨hre, .inl hrt⟩
    exact hfree r hlisted
  · rintro ⟨c, hc, hfree⟩
    obtain ⟨hce, hct, href⟩ := mem_selectCandidates.1 hc
    refine ⟨c, mem_listed.2 ⟨hce, .inl hct⟩, href, fun r hr hrc => ?_⟩
    have hre := (mem_listed.1 hr).1
    have hrev := h.names r (mem_allEntries.2 (.inl hre)) c (mem_allEntries.2 (.inl hce)) hrc
    obtain ⟨_, o, ho, hid, htenant⟩ := h.once.named r hre c.id hrev
    cases List.inj_on_of_nodup_map h.once.books.nodup ho hce hid
    exact hfree r (List.mem_append_right _ (mem_selectStornos.2 ⟨hre, htenant.symm.trans hct, c, hc, hrc⟩)) hrc

/-- A tenant's entries of a schedule period add up to nothing or to one booking, and the merge calls a month
posted if and only if a confirmation finds it booked. -/
def PeriodsBookedOnce (s : Books n) : Prop :=
  ∀ tenantId scheduleId : String,
    (∀ period, (∀ accountId, netEffect (s.periodEntries tenantId (scheduleReference scheduleId period)) accountId = 0) ∨
      ∃ b ∈ s.periodEntries tenantId (scheduleReference scheduleId period),
        b.origin = .booked (scheduleReference scheduleId period) ∧ ∀ accountId,
          netEffect (s.periodEntries tenantId (scheduleReference scheduleId period)) accountId =
            b.effect accountId) ∧
    ∀ projection asOf, ∀ month ∈ mergeScheduleActuals scheduleId projection (s.listed tenantId) asOf,
      month.status = .posted ↔
        (alreadyBooked s.entries tenantId (scheduleReference scheduleId month.period)).isSome

/-- Every schedule period is booked at most once, where references mean what the code takes them for. -/
theorem booked_once_of_run (s : Books n) (hr : Run step PlainReferences initial s) : s.PeriodsBookedOnce := by
  have hinv := periodInv_of_run hr
  intro tenantId scheduleId
  refine ⟨fun period => hinv.net tenantId (isScheduleReference_scheduleReference _ _), fun projection asOf month hm => ?_⟩
  rw [posted_iff hm]
  exact hinv.posted_iff_booked tenantId (isScheduleReference_scheduleReference _ _)

/-- January is booked, reversed and booked again. -/
theorem booked_once_of_run_january : ∃ s : Books 2, Run step PlainReferences initial s ∧ s.entries.length = 3 ∧
    s.PeriodsBookedOnce := by
  have hrun := exists_run_of_execOk step (fun (s : Books 2) a => decide (s.PlainReferences a)) initial
    (openBooks (rentSchedule bankId rentId) ++ inOneTx 0 confirmJanuary 7 (entryId "1") ++
      inOneTx 1 (reverseEntry (entryId "1")) 3 (entryId "2") ++ inOneTx 1 confirmJanuary 7 (entryId "3"))
    (fun s => s.entries.length = 3) (fun _ _ hb => of_decide_eq_true hb) (by decide +kernel) (by decide +kernel)
  obtain ⟨s, hr, hlength⟩ := hrun
  exact ⟨s, hr, of_decide_eq_true hlength, booked_once_of_run s hr⟩

/-- The reversal of January's booking is reversed, and January is booked once more. -/
theorem not_booked_once : ¬ ∀ s : Books 1, Run step (fun _ _ => True) initial s → s.PeriodsBookedOnce := by
  intro h
  obtain ⟨s, hr, hs⟩ := exists_run_of_exec step (initial : Books 1)
    (openBooks (rentSchedule bankId rentId) ++ inOneTx 0 confirmJanuary 7 (entryId "1") ++
      inOneTx 0 (reverseEntry (entryId "1")) 3 (entryId "2") ++
      inOneTx 0 (reverseEntry (entryId "2")) 3 (entryId "3") ++ inOneTx 0 confirmJanuary 7 (entryId "4"))
    (fun s => decide (
      netEffect (s.periodEntries "tenant-a" (scheduleReference leaseId "2026-01")) bankId = 1000 ∧
        ∀ b ∈ s.entries, b.effect bankId ≠ 1000)) (by decide +kernel)
  obtain ⟨hnet, hne⟩ := of_decide_eq_true hs
  rcases (h s hr "tenant-a" leaseId).1 "2026-01" with hzero | ⟨b, hb, _, hone⟩
  · rw [hzero bankId] at hnet
    cases hnet
  · exact hne b (mem_periodEntries.1 hb).1 ((hone bankId).symm.trans hnet)

end Books

end Kumiko
