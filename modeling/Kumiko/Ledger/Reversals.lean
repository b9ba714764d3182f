import Kumiko.Ledger.DoubleEntry

/-!
# Reversals

An entry is to be reversed at most once, and it and its reversal are to cancel out, which a mirror always does.
The first is checked with a read before the insert; `reversed_once_of_run` shows it for runs in which no other
client is between its own check and its commit with a reversal of the same entry.
-/

namespace Kumiko

open Transition

/-! ## Mirrors -/

/-- A reversal mirrors a posted entry that is there. -/
def MirrorOk (es : List LedgerEntry) (e : EntryData) : Prop :=
  ∀ x key, e.origin = .reversal x key → ∃ o ∈ es, o.id = x ∧ o.status = .posted ∧ e.status = .posted ∧
    e.lines = negated o.lines ∧ key = o.periodReference

variable {e : EntryData} {phase : LedgerPhase} {tenantId : String}

/-- More entries do not make a mirror wrong. -/
theorem MirrorOk.mono {es es' : List LedgerEntry} (h : MirrorOk es e) (hsub : ∀ o ∈ es, o ∈ es') :
    MirrorOk es' e := fun x key horigin => by
  obtain ⟨o, ho, hrest⟩ := h x key horigin
  exact ⟨o, hsub o ho, hrest⟩

/-- What a reversal adds to an account, its original has taken from it. -/
theorem effect_mirror {o e : EntryData} (ho : o.status = .posted) (he : e.status = .posted)
    (hlines : e.lines = negated o.lines) (accountId : String) : o.effect accountId + e.effect accountId = 0 := by
  have hfilter : (negated o.lines).filter (·.accountId = accountId) =
      negated (o.lines.filter (·.accountId = accountId)) := by
    rw [negated, negated, List.filter_map]
    rfl
  rw [EntryData.effect, EntryData.effect, ho, he]
  dsimp only
  rw [hlines, hfilter, sum_negated, add_neg_cancel]

def LedgerPhase.Mirrors (es : List LedgerEntry) : LedgerPhase → Prop
  | .reversals _ entry => entry ∈ es ∧ entry.status = .posted
  | .insert e => MirrorOk es e
  | _ => True

theorem LedgerPhase.Mirrors.mono {es es' : List LedgerEntry} (h : phase.Mirrors es)
    (hsub : ∀ o ∈ es, o ∈ es') : phase.Mirrors es' := by
  cases phase with
  | reversals p entry => exact ⟨hsub entry h.1, h.2⟩
  | insert e => exact MirrorOk.mono h hsub
  | _ => trivial

/-- What one client has booked, over what is committed. -/
structure LedgerClient.Ok (entries : List LedgerEntry) (cl : LedgerClient) : Prop where
  nodup : ((entries ++ cl.own).map (·.id)).Nodup
  own : ∀ e ∈ cl.own, MirrorOk (entries ++ cl.own) e.toEntryData
  phase : cl.phase.Mirrors (entries ++ cl.own)

theorem LedgerClient.Ok.fresh {entries : List LedgerEntry} {held taken : List String}
    {inTx : Bool} (h : (entries.map (·.id)).Nodup) :
    (⟨inTx, tenantId, [], held, taken, .idle⟩ : LedgerClient).Ok entries where
  nodup := by rwa [List.append_nil]
  own _ he := nomatch he
  phase := trivial

namespace Books
variable {es : List LedgerEntry}


variable {n : ℕ} {s s' : Books n} {k : Fin n} {id : String} {a : LedgerAct n}

@[simp] theorem setClient_self (s : Books n) (k : Fin n) (cl : LedgerClient) :
    (s.setClient k cl).clients k = cl := Function.update_self ..

@[simp] theorem setClient_of_ne {j k : Fin n} (h : j ≠ k) (s : Books n) (cl : LedgerClient) :
    (s.setClient k cl).clients j = s.clients j := Function.update_of_ne h ..

/-- Ids are those of one entry, and every reversal mirrors its original. -/
structure BooksInv (s : Books n) : Prop where
  nodup : (s.entries.map (·.id)).Nodup
  mirrors : ∀ e ∈ s.entries, MirrorOk s.entries e.toEntryData
  clients : ∀ k, (s.clients k).Ok s.entries
  apart : ∀ j k, j ≠ k → ∀ e ∈ (s.clients j).own, ∀ e' ∈ (s.clients k).own, e.id ≠ e'.id

/-- No entries, and nobody writes one. -/
theorem booksInv_initial : BooksInv (initial : Books n) where
  nodup := List.nodup_nil
  mirrors _ he := nomatch he
  clients _ := .fresh List.nodup_nil
  apart _ _ _ _ he := nomatch he

/-- A client's own step keeps what holds of the others. -/
theorem BooksInv.setClient (h : BooksInv s) {cl : LedgerClient} (hcl : cl.Ok s.entries)
    (hapart : ∀ j, j ≠ k → ∀ e ∈ (s.clients j).own, ∀ e' ∈ cl.own, e.id ≠ e'.id) :
    BooksInv (s.setClient k cl) where
  nodup := h.nodup
  mirrors := h.mirrors
  clients j := by
    rcases eq_or_ne j k with rfl | hne
    · rwa [setClient_self]
    · rw [setClient_of_ne hne]
      exact h.clients j
  apart i j hij := by
    rcases eq_or_ne i k with rfl | hi
    · rw [setClient_self, setClient_of_ne hij.symm]
      exact fun e he e' he' heq => hapart j hij.symm e' he' e he heq.symm
    · rw [setClient_of_ne hi]
      rcases eq_or_ne j k with rfl | hj
      · rw [setClient_self]
        exact hapart i hi
      · rw [setClient_of_ne hj]
        exact h.apart i j hij

/-- The client goes on with what it has booked. -/
theorem BooksInv.setPhase (h : BooksInv s) {cl : LedgerClient} (hown : cl.own = (s.clients k).own)
    (hphase : cl.phase.Mirrors (s.view k)) : BooksInv (s.setClient k cl) := by
  have hk := h.clients k
  refine h.setClient ⟨?_, ?_, ?_⟩ fun j hj => ?_
  · rw [hown]; exact hk.nodup
  · rw [hown]; exact hk.own
  · rw [hown]; exact hphase
  · rw [hown]; exact h.apart j k hj

theorem BooksInv.reset (h : BooksInv s) {inTx : Bool} :
    BooksInv (s.setClient k ⟨inTx, tenantId, [], [], [], .idle⟩) :=
  h.setClient (.fresh h.nodup) fun _ _ _ _ _ he => nomatch he

theorem mem_allEntries {e : LedgerEntry} : e ∈ s.allEntries ↔ e ∈ s.entries ∨ ∃ k, e ∈ (s.clients k).own := by
  simp [allEntries]

theorem mem_allEntries_of_view {e : LedgerEntry} (h : e ∈ s.view k) : e ∈ s.allEntries :=
  mem_allEntries.2 ((List.mem_append.1 h).imp_right fun he => ⟨k, he⟩)

theorem Fresh.id_ne {e' : LedgerEntry} (h : s.Fresh id e) (he : e' ∈ s.allEntries) : e'.id ≠ id :=
  fun heq => (h.2.2 e' he).1 (by rw [heq])

/-- An insert brings in an entry with a new id that mirrors what it reverses. -/
theorem BooksInv.insert (h : BooksInv s) (he : MirrorOk (s.view k) e) (hfresh : s.Fresh id e) :
    BooksInv (s.finish k [⟨e, id, (s.clients k).tenantId⟩]) := by
  have hk := h.clients k
  have hsub : ∀ o ∈ s.view k, o ∈ s.entries ++ ((s.clients k).own ++ [⟨e, id, (s.clients k).tenantId⟩]) :=
    fun o ho => by
      rw [← List.append_assoc]
      exact List.mem_append_left _ ho
  refine h.setClient ⟨?_, fun o ho => ?_, trivial⟩ fun j hj o ho e' he' => ?_
  · dsimp only
    rw [← List.append_assoc, List.map_append, List.nodup_append]
    refine ⟨hk.nodup, List.nodup_singleton _, fun x hx y hy heq => ?_⟩
    obtain ⟨o, ho, rfl⟩ := List.mem_map.1 hx
    rw [List.map_singleton, List.mem_singleton] at hy
    exact hfresh.id_ne (mem_allEntries_of_view ho) (heq.trans hy)
  · rcases List.mem_append.1 ho with hold | hnew
    · exact (hk.own o hold).mono hsub
    · rw [List.mem_singleton.1 hnew]
      exact he.mono hsub
  · rcases List.mem_append.1 he' with hold | hnew
    · exact h.apart j k hj o ho e' hold
    · rw [List.mem_singleton.1 hnew]
      exact hfresh.id_ne (mem_allEntries.2 (.inr ⟨j, ho⟩))

/-- A commit makes the client's entries visible to all. -/
theorem BooksInv.commit (h : BooksInv s) :
    BooksInv { s with entries := s.view k, clients := Function.update s.clients k .closed } := by
  have hk := h.clients k
  have hnodup : ((s.view k).map (·.id)).Nodup := hk.nodup
  refine ⟨hnodup, fun e he => ?_, fun j => ?_, fun i j hij => ?_⟩
  · rcases List.mem_append.1 he with hold | hnew
    · exact (h.mirrors e hold).mono fun o ho => List.mem_append_left _ ho
    · exact hk.own e hnew
  · show (Function.update s.clients k .closed j).Ok (s.view k)
    rcases eq_or_ne j k with rfl | hne
    · rw [Function.update_self]
      exact .fresh hnodup
    · rw [Function.update_of_ne hne]
      have hj := h.clients j
      have hsub : ∀ o ∈ s.entries ++ (s.clients j).own, o ∈ s.view k ++ (s.clients j).own := fun o ho =>
        (List.mem_append.1 ho).elim (fun hc => List.mem_append_left _ (List.mem_append_left _ hc))
          (List.mem_append_right _)
      refine ⟨?_, fun e he => (hj.own e he).mono hsub, hj.phase.mono hsub⟩
      rw [List.map_append, List.nodup_append]
      refine ⟨hnodup, ?_, fun x hx y hy heq => ?_⟩
      · exact (List.nodup_append.1 (List.map_append ▸ hj.nodup)).2.1
      · obtain ⟨o, ho, rfl⟩ := List.mem_map.1 hx
        obtain ⟨e, he, rfl⟩ := List.mem_map.1 hy
        rcases List.mem_append.1 ho with hc | hown
        · exact (List.nodup_append.1 (List.map_append ▸ hj.nodup)).2.2 _ (List.mem_map_of_mem hc) _
            (List.mem_map_of_mem he) heq
        · exact h.apart k j hne.symm o hown e he heq
  · have hreset : BooksInv (s.setClient k .closed) := h.reset
    exact hreset.apart i j hij

theorem mirrorOk_of_not_reversal (h : e.reverses = none) : MirrorOk es e :=
  fun x key horigin => by
    rw [EntryData.reverses, horigin] at h
    cases h

/-- A mirror has the lines of its original, negated. -/
theorem mirrorOk_mirrorEntry {p : ReverseTransactionPayload} {original : LedgerEntry}
    (ho : original ∈ es) (hposted : original.status = .posted) : MirrorOk es (mirrorEntry p original) :=
  fun x key horigin => by
    cases horigin
    exact ⟨original, ho, rfl, hposted, rfl, rfl, rfl⟩

/-- A lookup leaves a phase whose mirror is one of what the client sees. -/
theorem Advances.mirrors {phase phase' : LedgerPhase} (h : s.Advances k phase phase')
    (hphase : phase.Mirrors (s.view k)) : phase'.Mirrors (s.view k) := by
  cases h with
  | unbooked _ => exact mirrorOk_of_not_reversal rfl
  | original hfound hposted => exact ⟨List.mem_of_find?_eq_some hfound, hposted⟩
  | unreversed _ => exact mirrorOk_mirrorEntry hphase.1 hphase.2
  | _ => trivial

theorem mirrors_start (call : LedgerCall) (es : List LedgerEntry) : call.start.Mirrors es := by
  cases call <;> trivial

theorem Booking.mirrorOk (h : Booking phase e) (hphase : phase.Mirrors es) : MirrorOk es e := by
  cases h with
  | manual => exact mirrorOk_of_not_reversal rfl
  | insert => exact hphase

/-- Every step of the books keeps their invariant. -/
theorem BooksInv.step (h : BooksInv s) (hs : s.step a = some s') : BooksInv s' := by
  cases BooksStep.of_step hs with
  | beginTx => exact h.reset
  | command _ _ => exact h.setPhase rfl (mirrors_start ..)
  | fail => exact h.setPhase rfl trivial
  | rollback => exact h.reset
  | commit _ => exact h.commit
  | putAccount => exact ⟨h.nodup, h.mirrors, h.clients, h.apart⟩
  | putSchedule => exact ⟨h.nodup, h.mirrors, h.clients, h.apart⟩
  | @run k id _ hrun =>
    cases hrun with
    | giveUp => exact h.setPhase rfl trivial
    | goto ha => exact h.setPhase rfl (ha.mirrors (h.clients k).phase)
    | lock _ _ => exact h.setPhase rfl trivial
    | alreadyBooked => exact h.setPhase (List.append_nil _) trivial
    | insert hb hfresh => exact h.insert (hb.mirrorOk (h.clients k).phase) hfresh

theorem BooksInv.id_inj (h : BooksInv s) {e e' : LedgerEntry} (he : e ∈ s.view k) (he' : e' ∈ s.view k)
    (hid : e.id = e'.id) : e = e' := List.inj_on_of_nodup_map (h.clients k).nodup he he' hid

end Books

/-! ## At most one reversal -/

/-- The entry that the client is about to reverse. -/
def LedgerPhase.reverses : LedgerPhase → Option String
  | .insert e => e.reverses
  | _ => none

def reversalCount (x : String) (es : List LedgerEntry) : ℕ := es.countP fun e => e.reverses = some x

/-- The reversals of an entry that a client has not committed. -/
def LedgerClient.inFlight (cl : LedgerClient) (x : String) : ℕ :=
  reversalCount x cl.own + if cl.phase.reverses = some x then 1 else 0

/-- A reversal carries the id of an entry of its own tenant. -/
def ReversalNamed (es : List LedgerEntry) (tenantId : String) (e : EntryData) : Prop :=
  ∀ x, e.reverses = some x → e.reference = some x ∧ ∃ o ∈ es, o.id = x ∧ o.tenantId = tenantId

theorem ReversalNamed.mono {es es' : List LedgerEntry}
    (h : ReversalNamed es tenantId e) (hsub : ∀ o ∈ es, o ∈ es') : ReversalNamed es' tenantId e := by
  intro x hx
  obtain ⟨href, o, ho, hrest⟩ := h x hx
  exact ⟨href, o, hsub o ho, hrest⟩

/-- An entry that reverses nothing has nothing to name. -/
theorem reversalNamed_of_none (h : e.reverses = none) :
    ReversalNamed es tenantId e := fun x hx => by
  rw [h] at hx
  cases hx

def LedgerPhase.Named (es : List LedgerEntry) (tenantId : String) : LedgerPhase → Prop
  | .insert e => ReversalNamed es tenantId e
  | _ => True

theorem reversalCount_eq_zero {x : String} :
    reversalCount x es = 0 ↔ ∀ e ∈ es, e.reverses ≠ some x := by
  simp [reversalCount, List.countP_eq_zero]

theorem reversalCount_append {x : String} {es es' : List LedgerEntry} :
    reversalCount x (es ++ es') = reversalCount x es + reversalCount x es' := List.countP_append

theorem LedgerClient.inFlight_of_reverses_none {cl : LedgerClient} {x : String} (h : cl.phase.reverses = none) :
    cl.inFlight x = reversalCount x cl.own := by
  rw [inFlight, h, if_neg (fun hx => nomatch hx), Nat.add_zero]

theorem LedgerClient.inFlight_eq_zero {cl : LedgerClient} {x : String} (hphase : cl.phase.reverses ≠ some x)
    (hown : ∀ e ∈ cl.own, e.reverses ≠ some x) : cl.inFlight x = 0 := by
  rw [inFlight, if_neg hphase, reversalCount_eq_zero.2 hown]

namespace Books

variable {n : ℕ} {s s' : Books n} {k : Fin n} {id : String} {a : LedgerAct n}

/-- The client is the only one with a reversal of the entry on its way. -/
def ReversesAlone (s : Books n) (k : Fin n) (x : String) : Prop :=
  ∀ j, j ≠ k → (s.clients j).phase.reverses ≠ some x ∧ ∀ e ∈ (s.clients j).own, e.reverses ≠ some x

instance (s : Books n) (k : Fin n) (x : String) : Decidable (s.ReversesAlone k x) :=
  inferInstanceAs (Decidable (∀ j, j ≠ k → _ ∧ ∀ e ∈ _, _))

/-- The phase looks for a reversal of an entry of the client's tenant that it has got by the text of its id, and
no other client has one on its way. -/
def ChecksAlone (s : Books n) (k : Fin n) : LedgerPhase → Prop
  | .reversals p original =>
    p.id = original.id ∧ original.tenantId = (s.clients k).tenantId ∧ s.ReversesAlone k original.id
  | _ => True

instance (s : Books n) (k : Fin n) (phase : LedgerPhase) : Decidable (s.ChecksAlone k phase) :=
  match phase with
  | .reversals .. => inferInstanceAs (Decidable (_ ∧ _ ∧ _))
  | .idle | .createAccounts .. | .schedule _ | .scheduleAccounts .. | .candidates .. | .stornos ..
  | .original _ | .insert _ => .isTrue trivial

def LoneReversal (s : Books n) : LedgerAct n → Prop
  | .run k _ => s.ChecksAlone k (s.clients k).phase
  | _ => True

instance (s : Books n) (a : LedgerAct n) : Decidable (s.LoneReversal a) :=
  match a with
  | .run k _ => inferInstanceAs (Decidable (s.ChecksAlone k (s.clients k).phase))
  | .command .. | .beginTx .. | .fail .. | .commit .. | .rollback .. | .putAccount .. | .putSchedule .. =>
    .isTrue trivial

/-- No entry has more than one reversal, committed or on its way. -/
structure OnceInv (s : Books n) : Prop where
  books : BooksInv s
  named : ∀ e ∈ s.entries, ReversalNamed s.entries e.tenantId e.toEntryData
  own : ∀ k, ∀ e ∈ (s.clients k).own, ReversalNamed (s.view k) e.tenantId e.toEntryData
  phase : ∀ k, (s.clients k).phase.Named (s.view k) (s.clients k).tenantId
  committed : ∀ x, reversalCount x s.entries ≤ 1
  once : ∀ k x, reversalCount x s.entries + (s.clients k).inFlight x ≤ 1
  alone : ∀ j k, j ≠ k → ∀ x, (s.clients j).inFlight x = 0 ∨ (s.clients k).inFlight x = 0

/-- Nothing is reversed. -/
theorem onceInv_initial : OnceInv (initial : Books n) where
  books := booksInv_initial
  named _ he := nomatch he
  own _ _ he := nomatch he
  phase _ := trivial
  committed _ := Nat.zero_le 1
  once _ _ := Nat.zero_le 1
  alone _ _ _ _ := .inl rfl

/-- A client's own step keeps what holds of reversals. -/
theorem OnceInv.setClient {cl : LedgerClient} (h : OnceInv s) (hbooks : BooksInv (s.setClient k cl))
    (hown : ∀ e ∈ cl.own, ReversalNamed (s.entries ++ cl.own) e.tenantId e.toEntryData)
    (hphase : cl.phase.Named (s.entries ++ cl.own) cl.tenantId)
    (honce : ∀ x, reversalCount x s.entries + cl.inFlight x ≤ 1)
    (halone : ∀ j, j ≠ k → ∀ x, (s.clients j).inFlight x = 0 ∨ cl.inFlight x = 0) :
    OnceInv (s.setClient k cl) where
  books := hbooks
  named := h.named
  own j := by
    rcases eq_or_ne j k with rfl | hne
    · rwa [view, setClient_self]
    · rw [view, setClient_of_ne hne]
      exact h.own j
  phase j := by
    rcases eq_or_ne j k with rfl | hne
    · rwa [view, setClient_self]
    · rw [view, setClient_of_ne hne]
      exact h.phase j
  committed := h.committed
  once j := by
    rcases eq_or_ne j k with rfl | hne
    · rwa [setClient_self]
    · rw [setClient_of_ne hne]
      exact h.once j
  alone i j hij := by
    rcases eq_or_ne i k with rfl | hi
    · rw [setClient_self, setClient_of_ne hij.symm]
      exact fun x => (halone j hij.symm x).symm
    · rw [setClient_of_ne hi]
      rcases eq_or_ne j k with rfl | hj
      · rw [setClient_self]
        exact halone i hi
      · rw [setClient_of_ne hj]
        exact h.alone i j hij

/-- The client goes on with no more reversals on their way than before. -/
theorem OnceInv.setPhase {cl : LedgerClient} (h : OnceInv s) (hbooks : BooksInv (s.setClient k cl))
    (hown : cl.own = (s.clients k).own) (hphase : cl.phase.reverses = none) : OnceInv (s.setClient k cl) := by
  have hle : ∀ x, cl.inFlight x ≤ (s.clients k).inFlight x := by
    intro x
    rw [LedgerClient.inFlight_of_reverses_none hphase, hown]
    exact Nat.le_add_right _ _
  refine h.setClient hbooks ?_ ?_ (fun x => ?_) fun j hj x => ?_
  · rw [hown]; exact h.own k
  · cases hp : cl.phase with
    | insert e => exact reversalNamed_of_none (by rwa [hp] at hphase)
    | _ => trivial
  · exact (Nat.add_le_add_left (hle x) _).trans (h.once k x)
  · rcases h.alone j k hj x with hz | hz
    · exact .inl hz
    · exact .inr (Nat.le_zero.1 (hz ▸ hle x))

theorem OnceInv.reset {inTx : Bool} (h : OnceInv s) :
    OnceInv (s.setClient k ⟨inTx, tenantId, [], [], [], .idle⟩) :=
  h.setClient h.books.reset (fun _ he => nomatch he) trivial (fun x => h.committed x) fun _ _ _ => .inr rfl

/-- A check that finds nothing, while no other client has a reversal on its way. -/
theorem OnceInv.unreversed {p : ReverseTransactionPayload} {original : LedgerEntry} (h : OnceInv s)
    (hp : (s.clients k).phase = .reversals p original) (hok : s.ChecksAlone k (.reversals p original))
    (hnone : ∀ e ∈ s.view k, e.tenantId = (s.clients k).tenantId → e.reference ≠ some p.id) :
    OnceInv (s.goto k (.insert (mirrorEntry p original))) := by
  obtain ⟨hid, htenant, halone⟩ := hok
  have hmem : original ∈ s.view k ∧ original.status = .posted := by
    have hphase := (h.books.clients k).phase
    rwa [hp] at hphase
  -- a reversal in sight would carry the id and be of the tenant
  have hview : ∀ e ∈ s.view k, e.reverses ≠ some original.id := by
    intro e he hrev
    have hnamed : ReversalNamed (s.view k) e.tenantId e.toEntryData :=
      (List.mem_append.1 he).elim (fun hc => (h.named e hc).mono fun o ho => List.mem_append_left _ ho) (h.own k e)
    obtain ⟨href, o, ho, hoid, hot⟩ := hnamed _ hrev
    cases h.books.id_inj ho hmem.1 hoid
    exact hnone e he (hot.symm.trans htenant) (hid ▸ href)
  have hzero : reversalCount original.id s.entries = 0 ∧ reversalCount original.id (s.clients k).own = 0 :=
    ⟨reversalCount_eq_zero.2 fun e he => hview e (List.mem_append_left _ he),
      reversalCount_eq_zero.2 fun e he => hview e (List.mem_append_right _ he)⟩
  have hold : ∀ x, (s.clients k).inFlight x = reversalCount x (s.clients k).own := fun x =>
    LedgerClient.inFlight_of_reverses_none (by rw [hp]; rfl)
  have hnew : ∀ x, ({ s.clients k with phase := .insert (mirrorEntry p original) } : LedgerClient).inFlight x =
      reversalCount x (s.clients k).own + if original.id = x then 1 else 0 := by
    intro x
    show reversalCount x (s.clients k).own + (if some original.id = some x then 1 else 0) = _
    simp only [Option.some.injEq]
  refine h.setClient (h.books.setPhase rfl (mirrorOk_mirrorEntry hmem.1 hmem.2)) (h.own k) ?_ (fun x => ?_)
    fun j hj x => ?_
  · intro x hx
    cases hx
    exact ⟨congrArg some hid, original, hmem.1, rfl, htenant⟩
  · rw [hnew]
    split
    · next heq =>
      rw [← heq, hzero.1, hzero.2]
    · have honce := h.once k x
      rwa [hold] at honce
  · rw [hnew]
    split
    · next heq =>
      rw [← heq]
      exact .inl (LedgerClient.inFlight_eq_zero (halone j hj).1 (halone j hj).2)
    · have halone' := h.alone j k hj x
      rwa [hold] at halone'

theorem Booking.reverses (h : Booking phase e) :
    e.reverses = phase.reverses := by
  cases h <;> rfl

theorem Booking.named (h : Booking phase e) (hphase : phase.Named es tenantId) : ReversalNamed es tenantId e := by
  cases h with
  | manual => exact reversalNamed_of_none rfl
  | insert => exact hphase

/-- A reversal is inserted where none was found and nobody else is at it. -/
theorem OnceInv.insert (h : OnceInv s) (hb : Booking (s.clients k).phase e) (hfresh : s.Fresh id e) :
    OnceInv (s.finish k [⟨e, id, (s.clients k).tenantId⟩]) := by
  have hflight : ∀ x, ({ s.clients k with
      own := (s.clients k).own ++ [⟨e, id, (s.clients k).tenantId⟩], held := (s.clients k).locks, taken := [],
      phase := .idle } : LedgerClient).inFlight x = (s.clients k).inFlight x := by
    intro x
    rw [LedgerClient.inFlight_of_reverses_none rfl, reversalCount_append, LedgerClient.inFlight, ← hb.reverses]
    simp [reversalCount, List.countP_singleton]
  have hsub : ∀ o ∈ s.view k, o ∈ s.entries ++ ((s.clients k).own ++ [⟨e, id, (s.clients k).tenantId⟩]) := by
    intro o ho
    rw [← List.append_assoc]
    exact List.mem_append_left _ ho
  refine h.setClient (h.books.insert (hb.mirrorOk (h.books.clients k).phase) hfresh) (fun o ho => ?_) trivial
    (fun x => ?_) fun j hj x => ?_
  · rcases List.mem_append.1 ho with hold | hnew
    · exact (h.own k o hold).mono hsub
    · rw [List.mem_singleton.1 hnew]
      exact (hb.named (h.phase k)).mono hsub
  · rw [hflight]; exact h.once k x
  · rw [hflight]; exact h.alone j k hj x

/-- A commit turns reversals in flight into committed ones. -/
theorem OnceInv.commit (h : OnceInv s) (hidle : (s.clients k).phase = .idle) :
    OnceInv { s with entries := s.view k, clients := Function.update s.clients k .closed } := by
  have hown : ∀ x, reversalCount x (s.view k) = reversalCount x s.entries + (s.clients k).inFlight x := by
    intro x
    rw [view, reversalCount_append, LedgerClient.inFlight_of_reverses_none (by rw [hidle]; rfl)]
  have hsub : ∀ j, ∀ o ∈ s.view j, o ∈ s.view k ++ (s.clients j).own := by
    intro j o ho
    rcases List.mem_append.1 ho with hc | hj
    · exact List.mem_append_left _ (List.mem_append_left _ hc)
    · exact List.mem_append_right _ hj
  have hreset : OnceInv (s.setClient k .closed) := h.reset
  refine ⟨h.books.commit, fun e he => ?_, fun j => ?_, fun j => ?_, fun x => ?_, fun j x => ?_, hreset.alone⟩
  · exact (List.mem_append.1 he).elim (fun hc => (h.named e hc).mono fun o ho => List.mem_append_left _ ho) (h.own k e)
  · show ∀ e ∈ (Function.update s.clients k .closed j).own,
      ReversalNamed (s.view k ++ (Function.update s.clients k .closed j).own) _ _
    rcases eq_or_ne j k with rfl | hne
    · rw [Function.update_self]
      exact fun _ he => nomatch he
    · rw [Function.update_of_ne hne]
      exact fun e he => (h.own j e he).mono (hsub j)
  · show (Function.update s.clients k .closed j).phase.Named (s.view k ++ (Function.update s.clients k .closed j).own)
      (Function.update s.clients k .closed j).tenantId
    rcases eq_or_ne j k with rfl | hne
    · rw [Function.update_self]
      trivial
    · rw [Function.update_of_ne hne]
      have hphase := h.phase j
      cases hp : (s.clients j).phase with
      | insert e =>
        rw [hp] at hphase
        exact ReversalNamed.mono hphase (hsub j)
      | _ => trivial
  · rw [hown]
    exact h.once k x
  · show reversalCount x (s.view k) + (Function.update s.clients k .closed j).inFlight x ≤ 1
    rw [hown]
    rcases eq_or_ne j k with rfl | hne
    · rw [Function.update_self]
      exact h.once j x
    · rw [Function.update_of_ne hne]
      have hj := h.once j x
      have hk := h.once k x
      rcases h.alone j k hne x with hz | hz
      · omega
      · omega

/-- A phase comes to reverse an entry only where its check has found no reversal. -/
theorem Advances.reverses {phase phase' : LedgerPhase} (h : s.Advances k phase phase') :
    phase'.reverses = none ∨ ∃ p original, phase = .reversals p original ∧
      phase' = .insert (mirrorEntry p original) ∧
      ∀ e ∈ s.view k, e.tenantId = (s.clients k).tenantId → e.reference ≠ some p.id := by
  cases h with
  | unreversed hnone => exact .inr ⟨_, _, rfl, rfl, hnone⟩
  | _ => exact .inl rfl

/-- A step alone with its reversal keeps that each entry has one at most. -/
theorem OnceInv.step (h : OnceInv s) (hok : s.LoneReversal a) (hs : s.step a = some s') : OnceInv s' := by
  have hbooks := h.books.step hs
  cases BooksStep.of_step hs with
  | beginTx => exact h.reset
  | @command k call _ _ => exact h.setPhase hbooks rfl (by cases call <;> rfl)
  | fail => exact h.setPhase hbooks rfl rfl
  | rollback => exact h.reset
  | commit hidle => exact h.commit hidle
  | putAccount => exact ⟨hbooks, h.named, h.own, h.phase, h.committed, h.once, h.alone⟩
  | putSchedule => exact ⟨hbooks, h.named, h.own, h.phase, h.committed, h.once, h.alone⟩
  | @run k id _ hrun =>
    cases hrun with
    | giveUp => exact h.setPhase hbooks rfl rfl
    | goto ha =>
      rcases ha.reverses with hnone | ⟨p, original, hp, rfl, hnone⟩
      · exact h.setPhase hbooks rfl hnone
      · have hchecks : s.ChecksAlone k (s.clients k).phase := hok
        rw [hp] at hchecks
        exact h.unreversed hp hchecks hnone
    | lock _ _ => exact h.setPhase hbooks rfl rfl
    | alreadyBooked => exact h.setPhase hbooks (List.append_nil _) rfl
    | insert hb hfresh => exact h.insert hb hfresh

theorem onceInv_of_run (hr : Run step LoneReversal initial s) : OnceInv s :=
  hr.invariant onceInv_initial fun _ _ _ hi hok hs => hi.step hok hs

/-- An entry has at most one committed reversal, and the two add nothing to any account. -/
def ReversedOnce (s : Books n) : Prop :=
  ∀ o ∈ s.entries, (s.entries.filter fun r => r.reverses = some o.id).length ≤ 1 ∧
    ∀ r ∈ s.entries, r.reverses = some o.id → ∀ accountId, o.effect accountId + r.effect accountId = 0

/-- An entry and its reversal cancel out on every account. -/
theorem BooksInv.net (h : BooksInv s) {o r : LedgerEntry} (ho : o ∈ s.entries) (hr : r ∈ s.entries)
    (hrev : r.reverses = some o.id) (accountId : String) : o.effect accountId + r.effect accountId = 0 := by
  obtain ⟨key, horigin⟩ : ∃ key, r.origin = .reversal o.id key := by
    unfold EntryData.reverses at hrev
    split at hrev
    · next x key horigin =>
      cases hrev
      exact ⟨key, horigin⟩
    · cases hrev
  obtain ⟨o', ho', hid, hposted, hrposted, hlines, _⟩ := h.mirrors r hr _ _ horigin
  cases List.inj_on_of_nodup_map h.nodup ho' ho hid
  exact effect_mirror hposted hrposted hlines accountId

/-- Every entry is reversed at most once, where nobody else reverses it between the check and the commit. -/
theorem reversed_once_of_run (s : Books n) (hr : Run step LoneReversal initial s) : s.ReversedOnce := by
  have hinv := onceInv_of_run hr
  intro o ho
  refine ⟨?_, fun r hr hrev accountId => hinv.books.net ho hr hrev accountId⟩
  rw [← List.countP_eq_length_filter]
  exact hinv.committed o.id

/-- An entry is reversed, and so is its reversal. -/
theorem reversed_once_of_run_twice : ∃ s : Books 2, Run step LoneReversal initial s ∧ s.entries.length = 3 ∧
    s.ReversedOnce := by
  have hrun := exists_run_of_execOk step (fun (s : Books 2) a => decide (s.LoneReversal a)) initial
    (openBooks (rentSchedule bankId rentId) ++ inOneTx 0 (createEntry none) 3 (entryId "1") ++
      inOneTx 0 (reverseEntry (entryId "1")) 3 (entryId "2") ++ inOneTx 1 (reverseEntry (entryId "2")) 3 (entryId "3"))
    (fun s => s.entries.length = 3) (fun _ _ hb => of_decide_eq_true hb) (by decide +kernel) (by decide +kernel)
  obtain ⟨s, hr, hlength⟩ := hrun
  exact ⟨s, hr, of_decide_eq_true hlength, reversed_once_of_run s hr⟩

/-- Two clients that have both looked for a reversal before either has booked its own. -/
def racingReversals : List (LedgerAct 2) :=
  [.beginTx 0 "tenant-a", .command 0 (reverseEntry (entryId "1")), .run 0 "", .run 0 "",
    .beginTx 1 "tenant-a", .command 1 (reverseEntry (entryId "1")), .run 1 "", .run 1 "",
    .run 0 (entryId "2"), .commit 0, .run 1 (entryId "3"), .commit 1]

/-- Two clients check before either commits. -/
theorem not_reversed_once : ¬ ∀ s : Books 2, Run step (fun _ _ => True) initial s → s.ReversedOnce := by
  intro h
  obtain ⟨s, hr, hs⟩ := exists_run_of_exec step (initial : Books 2)
    (openBooks (rentSchedule bankId rentId) ++ inOneTx 0 (createEntry none) 3 (entryId "1") ++ racingReversals)
    (fun s => decide (∃ o ∈ s.entries, ¬ (s.entries.filter fun r => r.reverses = some o.id).length ≤ 1))
    (by decide +kernel)
  obtain ⟨o, ho, hne⟩ := of_decide_eq_true hs
  exact hne (h s hr o ho).1

end Books

end Kumiko
