import Kumiko.EventStore.Sessions
import Kumiko.Library.Contiguous
import Kumiko.Library.Run

/-!
# The versions of a stream

In every interleaving a stream's committed versions are `1, …, n`, and so are those a client sees between its
inserts (`conditionalWrites_of_run`). A version has a predecessor because each insert looked for one, or because
a batch inserts it too (`StreamInv.pred`). Where batches list each stream in ascending order, versions also
ascend with event ids; the invariant carries that as the flag `asc`.
-/

namespace Kumiko

open Transition

/-! ## What the checks of a batch establish -/

section
variable {evs : List EventToAppend} {ev : EventToAppend} {stream : String × String}

theorem mem_batchStreams : stream ∈ batchStreams evs ↔ ∃ ev ∈ evs, ev.stream = stream := by
  induction evs with
  | nil => simp [batchStreams]
  | cons e evs ih =>
    simp only [batchStreams, List.mem_cons, List.mem_filter, ih, decide_eq_true_eq,
      exists_eq_or_imp]
    constructor
    · rintro (rfl | ⟨h, -⟩)
      · exact .inl rfl
      · exact .inr h
    · rintro (rfl | h)
      · exact .inl rfl
      · by_cases he : stream = e.stream
        · exact .inl he
        · exact .inr ⟨h, he⟩

theorem mem_eventsOfStream : ev ∈ eventsOfStream evs stream ↔ ev ∈ evs ∧ ev.stream = stream := by
  simp [eventsOfStream]

/-- In a list without a jump every event but the first follows on another one. -/
theorem exists_of_firstJump {prev : EventToAppend} (h : firstJump prev evs = none)
    (hev : ev ∈ evs) : ∃ ev' ∈ prev :: evs, ev'.newVersion = ev.expectedVersion := by
  induction evs generalizing prev with
  | nil => nomatch hev
  | cons curr rest ih =>
    simp only [firstJump, ne_eq, ite_not] at h
    split at h
    · next hc =>
      cases hev with
      | head => exact ⟨prev, .head _, hc.symm⟩
      | tail _ hev =>
        obtain ⟨ev', hm, he⟩ := ih h hev
        exact ⟨ev', .tail _ hm, he⟩
    · cases h

theorem foldl_min_spec (evs : List EventToAppend) (m : ℤ) :
    let r := evs.foldl (fun (m : ℤ) (ev : EventToAppend) =>
      if ev.expectedVersion < m then ev.expectedVersion else m) m
    r ≤ m ∧ (∀ ev ∈ evs, r ≤ ev.expectedVersion) ∧
      (r = m ∨ ∃ ev ∈ evs, ev.expectedVersion = r) := by
  induction evs generalizing m with
  | nil => exact ⟨le_rfl, (fun _ h => nomatch h), .inl rfl⟩
  | cons e evs ih =>
    obtain ⟨m', hm', hle, hle', hcases⟩ : ∃ m', m' =
        (if e.expectedVersion < m then e.expectedVersion else m) ∧ m' ≤ m ∧
        m' ≤ e.expectedVersion ∧ (m' = m ∨ e.expectedVersion = m') := by
      refine ⟨_, rfl, ?_⟩
      split <;> omega
    obtain ⟨h₁, h₂, h₃⟩ := ih m'
    simp only [List.foldl_cons, ← hm', List.forall_mem_cons, List.exists_mem_cons_iff]
    refine ⟨h₁.trans hle, ⟨h₁.trans hle', h₂⟩, ?_⟩
    rcases h₃ with h₃ | h₃
    · rw [h₃]
      exact hcases.imp_right .inl
    · exact .inr (.inr h₃)

/-- `minExpected` is the least expected version of the stream. -/
theorem minExpected_spec (hev : ev ∈ eventsOfStream evs stream) :
    (∀ ev ∈ eventsOfStream evs stream, minExpected evs stream ≤ ev.expectedVersion) ∧
      ∃ ev ∈ eventsOfStream evs stream, ev.expectedVersion = minExpected evs stream := by
  unfold minExpected
  split
  · next h => rw [h] at hev; nomatch hev
  · next first rest h =>
    obtain ⟨h₁, h₂, h₃⟩ := foldl_min_spec rest first.expectedVersion
    rw [h]
    refine ⟨List.forall_mem_cons.2 ⟨h₁, h₂⟩, ?_⟩
    rcases h₃ with h₃ | ⟨e, he, h₃⟩
    · exact ⟨first, .head _, h₃.symm⟩
    · exact ⟨e, .tail _ he, h₃⟩

/-- In a batch that passes the check an event expects the least version of its stream, or another
event writes the version it expects. -/
theorem verifyContiguousWithinBatch_spec (h : verifyContiguousWithinBatch evs = none)
    (hev : ev ∈ evs) : minExpected evs ev.stream ≤ ev.expectedVersion ∧
      (ev.expectedVersion = minExpected evs ev.stream ∨
        ∃ ev' ∈ evs, ev'.stream = ev.stream ∧ ev'.newVersion = ev.expectedVersion) := by
  have hmem := mem_eventsOfStream.2 ⟨hev, rfl⟩
  obtain ⟨hle, em, hem, hmin⟩ := minExpected_spec hmem
  refine ⟨hle ev hmem, ?_⟩
  have hs := List.findSome?_eq_none_iff.1 h ev.stream (mem_batchStreams.2 ⟨ev, hev, rfl⟩)
  have : Std.Total fun a b : EventToAppend => a.expectedVersion ≤ b.expectedVersion :=
    ⟨fun a b => le_total _ _⟩
  have : IsTrans EventToAppend fun a b => a.expectedVersion ≤ b.expectedVersion :=
    ⟨fun a b c => le_trans⟩
  have hsorted := List.pairwise_insertionSort (r := fun a b : EventToAppend =>
    a.expectedVersion ≤ b.expectedVersion) (eventsOfStream evs ev.stream)
  have mem : ∀ e, e ∈ (eventsOfStream evs ev.stream).insertionSort
      (·.expectedVersion ≤ ·.expectedVersion) ↔ e ∈ eventsOfStream evs ev.stream := fun e =>
    List.mem_insertionSort _
  generalize (eventsOfStream evs ev.stream).insertionSort
    (·.expectedVersion ≤ ·.expectedVersion) = sorted at hs hsorted mem
  cases sorted with
  | nil => exact absurd ((mem ev).2 hmem) List.not_mem_nil
  | cons first rest =>
    simp only [Option.map_eq_none_iff] at hs
    rcases List.mem_cons.1 ((mem ev).2 hmem) with rfl | hrest
    · -- the first of the sorted list is the least
      left
      have h₁ : ev.expectedVersion ≤ em.expectedVersion := by
        rcases List.mem_cons.1 ((mem em).2 hem) with rfl | hm
        · exact le_rfl
        · exact (List.pairwise_cons.1 hsorted).1 em hm
      have h₂ := hle ev hmem
      omega
    · right
      obtain ⟨ev', hm, he⟩ := exists_of_firstJump hs hrest
      have := mem_eventsOfStream.1 ((mem ev').1 hm)
      exact ⟨ev', this.1, this.2, he⟩

end

/-! ## The invariant of the streams -/

/-- The batch lists the events of each stream in ascending order. -/
def Ascending (evs : List EventToAppend) : Prop :=
  evs.Pairwise fun a b => a.stream = b.stream → a.expectedVersion < b.expectedVersion

instance (evs : List EventToAppend) : Decidable (Ascending evs) :=
  inferInstanceAs (Decidable (List.Pairwise _ _))

/-- Every event has its predecessor in the rows or in the list, or needs none. -/
def Fed (rows : List EventRow) (evs : List EventToAppend) : Prop :=
  ∀ ev ∈ evs, 0 ≤ ev.expectedVersion ∧ (ev.expectedVersion = 0 ∨
    (∃ p ∈ rows, Store.Precedes p ev) ∨
    ∃ ev' ∈ evs, ev'.stream = ev.stream ∧ ev'.newVersion = ev.expectedVersion)

theorem Fed.mono {rows rows' : List EventRow} {evs : List EventToAppend} (h : Fed rows evs)
    (hsub : ∀ r ∈ rows, r ∈ rows') : Fed rows' evs := fun ev hev => by
  obtain ⟨h₀, h⟩ := h ev hev
  refine ⟨h₀, h.imp_right fun h => h.imp_left ?_⟩
  rintro ⟨p, hp, hpe⟩
  exact ⟨p, hsub p hp, hpe⟩

/-- What a phase knows of the predecessors of its events, from the rows its statements see. -/
def CallPhase.Ok (asc : Prop) (rows : List EventRow) : CallPhase → Prop
  | .predecessors first others groups =>
    verifyContiguousWithinBatch (first :: others) = none ∧ (asc → Ascending (first :: others)) ∧
      ∀ g ∈ batchGroups (first :: others), g ∈ groups ∨ g.minExpected = 0 ∨
        ∃ r ∈ rows, r.stream = g.stream ∧ r.version = g.minExpected
  | .duplicates first others => (asc → Ascending (first :: others)) ∧ Fed rows (first :: others)
  | .claim w | .seedCheck w | .gate w =>
    (asc → Ascending w.events) ∧ (w.isBatch → Fed rows w.events)
  | .draw _ rest => (asc → Ascending rest) ∧ Fed rows rest
  | .place _ id ev rest => (asc → Ascending (ev :: rest)) ∧ Fed rows (ev :: rest) ∧
      (asc → ev.expectedVersion = 0 ∨ ∃ p ∈ rows, Store.Precedes p ev ∧ p.id < id)
  | _ => True

/-- What a phase knows stays true of more rows. -/
theorem CallPhase.Ok.mono {asc : Prop} {rows rows' : List EventRow} {phase : CallPhase}
    (h : phase.Ok asc rows) (hsub : ∀ r ∈ rows, r ∈ rows') :
    phase.Ok asc rows' := by
  cases phase with
  | predecessors =>
    refine ⟨h.1, h.2.1, fun g hg => (h.2.2 g hg).imp_right fun h => h.imp_right ?_⟩
    rintro ⟨r, hr, he⟩
    exact ⟨r, hsub r hr, he⟩
  | duplicates => exact ⟨h.1, h.2.mono hsub⟩
  | claim | seedCheck | gate => exact ⟨h.1, fun hb => (h.2 hb).mono hsub⟩
  | draw => exact ⟨h.1, h.2.mono hsub⟩
  | place =>
    refine ⟨h.1, h.2.1.mono hsub, fun ha => (h.2.2 ha).imp_right ?_⟩
    rintro ⟨p, hp, he⟩
    exact ⟨p, hsub p hp, he⟩
  | archiveCheck | streamVersion | conflicted | commit => trivial

/-- The events that the batch statement of a session still has to insert. -/
def Session.batch (σ : Session) : List EventToAppend :=
  match σ.call with
  | some ⟨_, .draw w rest⟩ => if w.isBatch then rest else []
  | some ⟨_, .place w _ ev rest⟩ => if w.isBatch then ev :: rest else []
  | _ => []

namespace Store

/-- What the store keeps about the versions of its streams. -/
structure StreamInv (asc : Prop) (s : Store) : Prop where
  /-- A version is there once, rolled back rows aside. -/
  unique : ∀ r ∈ s.log.rows, ∀ r' ∈ s.log.rows, ¬ s.log.xacts.Aborted r.xid →
    ¬ s.log.xacts.Aborted r'.xid → r.stream = r'.stream → r.version = r'.version → r = r'
  pos : ∀ r ∈ s.log.rows, 1 ≤ r.version
  /-- A version has its predecessor, committed or by the same transaction, or the statement that
  inserted it still has to insert the predecessor. -/
  pred : ∀ r ∈ s.log.rows, ¬ s.log.xacts.Aborted r.xid → r.version = 1 ∨
    (∃ p ∈ s.log.rows, p.stream = r.stream ∧ p.version + 1 = r.version ∧
      (p.xid ∈ s.log.xacts.committed ∨ p.xid = r.xid) ∧ (asc → p.id < r.id)) ∨
    (¬ asc ∧ ∃ k, (s.sessions k).xid = some r.xid ∧
      ∃ ev ∈ (s.sessions k).batch, ev.stream = r.stream ∧ ev.newVersion + 1 = r.version)
  phase : ∀ k c, (s.sessions k).call = some c → c.phase.Ok asc (s.view k)

/-- A batch lists the events of each stream in ascending order. -/
def BatchAscending : StoreAct → Prop
  | .call _ (.appendRawBatch evs) => Ascending evs
  | _ => True

instance (a : StoreAct) : Decidable (BatchAscending a) := by
  unfold BatchAscending
  split <;> infer_instance

section
variable {s s' : Store} {k : ℕ} {r : EventRow}

theorem mem_view : r ∈ s.view k ↔ r ∈ s.log.rows ∧
    (r.xid ∈ s.log.xacts.committed ∨ (s.sessions k).xid = some r.xid) ∧ r.id ∉ s.log.pruned := by
  simp [view]

/-- What a client sees is not rolled back. -/
theorem SessionInv.not_aborted_of_view (hi : SessionInv s) (hr : r ∈ s.view k) :
    ¬ s.log.xacts.Aborted r.xid := fun hab => by
  rcases (mem_view.1 hr).2.1 with hc | hx
  · exact hab.2.2 hc
  · exact hab.2.1 ((hi.session k).xid _ hx).2

/-- What a client sees stays visible to it as long as its transaction goes on. -/
theorem view_mono (he : s.log.Ext s'.log) (hp : s'.log.pruned = [])
    (hx : ∀ x, (s.sessions k).xid = some x → (s'.sessions k).xid = some x) :
    ∀ r ∈ s.view k, r ∈ s'.view k := fun r hr => by
  obtain ⟨hr, hv, -⟩ := mem_view.1 hr
  exact mem_view.2 ⟨he.rows r hr, hv.imp (he.xacts.committed _) (hx _), by simp [hp]⟩

end

/-! ## Every step keeps the invariant -/

section
variable {asc : Prop} {s s' : Store} {k x : ℕ} {r : EventRow}
  {ev : EventToAppend} {rest : List EventToAppend} {w : EventWrite}
  {phase phase' : CallPhase} {rows : List EventRow}

/-- The checks of a batch establish that every event has its predecessor. -/
theorem fed_of_checks {first : EventToAppend} {others : List EventToAppend}
    (hc : verifyContiguousWithinBatch (first :: others) = none)
    (hg : ∀ g ∈ batchGroups (first :: others), g.minExpected = 0 ∨
      ∃ r ∈ rows, r.stream = g.stream ∧ r.version = g.minExpected)
    (hpos : ∀ r ∈ rows, 1 ≤ r.version) : Fed rows (first :: others) := fun ev hev => by
  obtain ⟨hle, hmin⟩ := verifyContiguousWithinBatch_spec hc hev
  have hgm := hg ⟨ev.stream, minExpected (first :: others) ev.stream⟩
    (List.mem_map.2 ⟨_, mem_batchStreams.2 ⟨ev, hev, rfl⟩, rfl⟩)
  refine ⟨?_, ?_⟩
  · rcases hgm with h₀ | ⟨r, hr, -, hv⟩
    · exact h₀ ▸ hle
    · have := hpos r hr
      simp only at hv
      omega
  · rcases hmin with hmin | hmin
    · rcases hgm with h₀ | ⟨r, hr, hs, hv⟩
      · exact .inl (hmin.trans h₀)
      · exact .inr (.inl ⟨r, hr, hs, hv.trans hmin.symm⟩)
    · exact .inr (.inr hmin)

/-- A statement that only changes the phase passes on what the call knows. -/
theorem PhaseStep.ok (hp : PhaseStep s k phase phase') (h : phase.Ok asc (s.view k))
    (hpos : ∀ r ∈ s.log.rows, 1 ≤ r.version) : phase'.Ok asc (s.view k) := by
  have hpos' : ∀ r ∈ s.view k, 1 ≤ r.version := fun r hr => hpos r (mem_view.1 hr).1
  cases hp with
  | unpinned | missed | conflict | complete => trivial
  | pinned | streamVersion => exact ⟨fun _ => List.pairwise_singleton _ _, fun h => nomatch h⟩
  | predecessor hg =>
    refine ⟨h.1, h.2.1, fun g' hg' => ?_⟩
    rcases h.2.2 g' hg' with hm | hm
    · cases hm with
      | head => exact .inr hg
      | tail _ hm => exact .inl hm
    · exact .inr hm
  | predecessors =>
    exact ⟨h.2.1, fed_of_checks h.1
      (fun g hg => (h.2.2 g hg).resolve_left List.not_mem_nil) hpos'⟩
  | duplicates => exact ⟨h.1, fun _ => h.2⟩
  | claimed | seedCheck => exact h
  | @gate w hg =>
    refine ⟨h.1, ?_⟩
    rcases hg with hb | hg
    · exact h.2 hb
    · cases w with
      | appendRawBatch => exact h.2 rfl
      | append ev | appendRaw ev =>
        intro ev' hev'
        obtain rfl := List.mem_singleton.1 hev'
        rcases hg with h₀ | ⟨r, hr, hpr⟩
        · exact ⟨h₀.ge, .inl h₀⟩
        · have := hpos' r hr
          exact ⟨hpr.2 ▸ (by omega), .inr (.inl ⟨r, hr, hpr⟩)⟩

/-- The head of a list that lists each stream in ascending order is not fed by the list. -/
theorem fed_head (ha : Ascending (ev :: rest)) (h : Fed rows (ev :: rest)) :
    ev.expectedVersion = 0 ∨ ∃ p ∈ rows, Precedes p ev := by
  rcases (h ev (.head _)).2 with h₀ | hp | ⟨ev', hev', hs, hv⟩
  · exact .inl h₀
  · exact .inr hp
  · exfalso
    unfold EventToAppend.newVersion at hv
    cases hev' with
    | head => omega
    | tail _ hev' =>
      have := (List.pairwise_cons.1 ha).1 ev' hev' hs.symm
      omega

/-- The version index lets a row pass only if no row that is not rolled back has the version. -/
theorem uniqueCheck_free (hw : s.log.WF) (hp : s.log.pruned = [])
    (h : s.uniqueCheck k ev = .free) (hr : r ∈ s.log.rows)
    (hab : ¬ s.log.xacts.Aborted r.xid) : ¬ SameVersion r ev := fun hv => by
  unfold uniqueCheck at h
  split at h
  · cases h
  · next hview =>
    split at h
    · cases h
    · next hrun =>
      rcases Xacts.trichotomy (hw.xid_lt hr) with hx | hx | hx
      · exact hrun ⟨r, hr, hx, hv⟩
      · exact hview ⟨r, mem_view.2 ⟨hr, .inl hx, by simp [hp]⟩, hv⟩
      · exact hab hx

/-- A step that inserts no row keeps the invariant when it ends no batch halfway and what the calls
know stays true. -/
theorem StreamInv.of_rows (h : StreamInv asc s) (he : s.log.Ext s'.log)
    (hrows : s'.log.rows = s.log.rows)
    (hb : ∀ k x, (s.sessions k).xid = some x → (s.sessions k).batch = [] ∨
      s'.log.xacts.Aborted x ∨
      (s'.sessions k).xid = some x ∧ (s'.sessions k).batch = (s.sessions k).batch)
    (hp : ∀ k c, (s'.sessions k).call = some c → c.phase.Ok asc (s'.view k)) : StreamInv asc s' where
  unique r hr r' hr' hab hab' :=
    h.unique r (hrows ▸ hr) r' (hrows ▸ hr') (fun ha => hab (ha.ext he.xacts))
      fun ha => hab' (ha.ext he.xacts)
  pos r hr := h.pos r (hrows ▸ hr)
  pred r hr hab := by
    rcases h.pred r (hrows ▸ hr) fun ha => hab (ha.ext he.xacts) with
      h₁ | ⟨p, hp, hs, hv, hx, hid⟩ | ⟨ha, k, hx, ev, hev, hpe⟩
    · exact .inl h₁
    · exact .inr (.inl ⟨p, hrows ▸ hp, hs, hv, hx.imp_left (he.xacts.committed _), hid⟩)
    · rcases hb k r.xid hx with hnil | habs | ⟨hx', hb'⟩
      · rw [hnil] at hev
        nomatch hev
      · exact absurd habs hab
      · exact .inr (.inr ⟨ha, k, hx', ev, hb' ▸ hev, hpe⟩)
  phase := hp

end

section
variable {asc : Prop} {s s' : Store} {a : StoreAct} {k n x id now : ℕ} {r : EventRow}
  {ev : EventToAppend} {rest : List EventToAppend} {w : EventWrite} {log : Log} {σ : Session}
  {phase phase' : CallPhase}

/-- A statement that only changes the phase leaves the batch as it is. -/
theorem PhaseStep.batch (hp : PhaseStep s k phase phase')
    (hc : (s.sessions k).call = some ⟨n, phase⟩) : (s.sessions k).batch = [] := by
  unfold Session.batch
  rw [hc]
  cases hp with
  | complete => exact ite_self _
  | _ => rfl

/-- One session changes and no row is inserted: the invariant needs what the session's call knows
then, and that no batch ends halfway. -/
theorem StreamInv.update (h : StreamInv asc s) (hi : SessionInv s) (hs : StoreStep s a s')
    (hrows : s'.log.rows = s.log.rows)
    (hss : s'.sessions = Function.update s.sessions k σ)
    (hb : ∀ x, (s.sessions k).xid = some x → (s.sessions k).batch = [] ∨
      s'.log.xacts.Aborted x ∨ σ.xid = some x ∧ σ.batch = (s.sessions k).batch)
    (hp : ∀ c, σ.call = some c → c.phase.Ok asc (s'.view k)) : StreamInv asc s' := by
  obtain ⟨he, -, hpr⟩ := hi.step_log hs
  have of_ne : ∀ k', k' ≠ k → s'.sessions k' = s.sessions k' := fun k' hne => by
    rw [hss, Function.update_of_ne hne]
  have of_self : s'.sessions k = σ := by rw [hss, Function.update_self]
  refine h.of_rows he hrows (fun k' x hx => ?_) fun k' c hc => ?_
  · by_cases hk : k' = k
    · subst hk
      rw [of_self]
      exact hb x hx
    · rw [of_ne k' hk]
      exact .inr (.inr ⟨hx, rfl⟩)
  · by_cases hk : k' = k
    · subst hk
      rw [of_self] at hc
      exact hp c hc
    · rw [of_ne k' hk] at hc
      exact (h.phase k' c hc).mono (view_mono he hpr fun x hx => (of_ne k' hk).symm ▸ hx)

/-- Who can see the rows of the view after the session's transaction has gone on. -/
theorem view_step (hi : SessionInv s) (hs : StoreStep s a s')
    (hx : ∀ x, (s.sessions k).xid = some x → (s'.sessions k).xid = some x) :
    ∀ r ∈ s.view k, r ∈ s'.view k :=
  have ⟨he, _, hp⟩ := hi.step_log hs
  view_mono he hp hx

/-- The insert of a row keeps the invariant. -/
theorem StreamInv.insert (h : StreamInv asc s) (hi : SessionInv s)
    (hc : (s.sessions k).call = some ⟨n, .place w id ev rest⟩)
    (hu : s.uniqueCheck k ev = .free) (hx : (s.sessions k).xid = some x)
    (hl : s.log.step (.insert x id (ev.toNewEvent now)) = some log) :
    StreamInv asc { s.goto k n (.draw w rest) with
      log, writes := s.writes ++ [⟨n, ev, id, x⟩] } := by
  have hstep := StoreStep.insert (a := .error k) hc hu hx hl
  obtain ⟨he, -, hpr⟩ := hi.step_log hstep
  obtain ⟨hasc, hfed, hid⟩ := h.phase k _ hc
  have hsuffix := (hi.session k).phase _ hc
  set s' : Store := { s.goto k n (.draw w rest) with
    log, writes := s.writes ++ [⟨n, ev, id, x⟩] } with hs'
  set row := (ev.toNewEvent now).toRow id x with hrow
  have hlog : log = { s.log with rows := Log.insertRow row s.log.rows } := by
    simp only [Log.step, Option.ite_none_right_eq_some, Option.some.injEq] at hl
    exact hl.2.symm
  have mem : ∀ r, r ∈ s'.log.rows ↔ r = row ∨ r ∈ s.log.rows := fun r => by
    rw [hs']
    simp only [hlog, Log.mem_insertRow]
  have hxacts : s'.log.xacts = s.log.xacts := by rw [hs']; simp only [hlog]
  have of_ne : ∀ k', k' ≠ k → s'.sessions k' = s.sessions k' := fun k' hne =>
    Function.update_of_ne hne _ _
  have of_self : s'.sessions k = { s.sessions k with call := some ⟨n, .draw w rest⟩ } :=
    Function.update_self _ _ _
  have fresh : ∀ r ∈ s.log.rows, ¬ s.log.xacts.Aborted r.xid → ¬ SameVersion r ev :=
    fun r hr hab => uniqueCheck_free hi.log hi.pruned hu hr hab
  have hev := (hfed ev (.head _)).1
  -- the events of the batch that feed another one are in a batch
  have hbatch : rest ≠ [] → w.isBatch := fun hne =>
    (CallPhase.WF.mayHaveRows hsuffix).resolve_right hne
  refine ⟨fun r hr r' hr' hab hab' hs hv => ?_, fun r hr => ?_, fun r hr hab => ?_,
    fun k' c hc' => ?_⟩
  · rw [hxacts] at hab hab'
    rcases (mem r).1 hr with rfl | hr <;> rcases (mem r').1 hr' with rfl | hr'
    · rfl
    · exact absurd ⟨hs.symm, hv.symm⟩ (fresh r' hr' hab')
    · exact absurd ⟨hs, hv⟩ (fresh r hr hab)
    · exact h.unique r hr r' hr' hab hab' hs hv
  · rcases (mem r).1 hr with rfl | hr
    · rw [hrow, EventToAppend.toRow_version, EventToAppend.newVersion]
      omega
    · exact h.pos r hr
  · rw [hxacts] at hab ⊢
    rcases (mem r).1 hr with rfl | hr
    · -- the new row
      rw [hrow, EventToAppend.toRow_version, EventToAppend.toRow_stream]
      by_cases ha : asc
      · rcases hid ha with h₀ | ⟨p, hp, hpe, hlt⟩
        · exact .inl (by rw [EventToAppend.newVersion, h₀]; rfl)
        · obtain ⟨hpm, hpv, -⟩ := mem_view.1 hp
          refine .inr (.inl ⟨p, (mem p).2 (.inr hpm), hpe.1, ?_, hpv.imp_right fun h => ?_,
            fun _ => hlt⟩)
          · rw [hpe.2]
            rfl
          · exact Option.some_injective _ (h.symm.trans hx)
      · rcases (hfed ev (.head _)).2 with h₀ | ⟨p, hp, hpe⟩ | ⟨ev', hev', hst, hve⟩
        · exact .inl (by rw [EventToAppend.newVersion, h₀]; rfl)
        · obtain ⟨hpm, hpv, -⟩ := mem_view.1 hp
          refine .inr (.inl ⟨p, (mem p).2 (.inr hpm), hpe.1, ?_, hpv.imp_right fun h => ?_,
            fun h => absurd h ha⟩)
          · rw [hpe.2]
            rfl
          · exact Option.some_injective _ (h.symm.trans hx)
        · have hm : ev' ∈ rest := by
            cases hev' with
            | head =>
              unfold EventToAppend.newVersion at hve
              omega
            | tail _ hm => exact hm
          refine .inr (.inr ⟨ha, k, ?_, ev', ?_, hst, by rw [hve]; rfl⟩)
          · rw [of_self]
            exact hx
          · rw [of_self, Session.batch]
            simp only [hbatch (List.ne_nil_of_mem hm), if_true]
            exact hm
    · rcases h.pred r hr hab with h₁ | ⟨p, hp, hs, hv, hpx, hlt⟩ | ⟨ha, k', hk', ev', hev', hst, hve⟩
      · exact .inl h₁
      · exact .inr (.inl ⟨p, (mem p).2 (.inr hp), hs, hv, hpx, hlt⟩)
      · by_cases hk : k' = k
        · -- the row waited for an event of this batch
          subst hk
          have hxr : x = r.xid := Option.some_injective _ (hx.symm.trans hk')
          rw [Session.batch, hc] at hev'
          simp only at hev'
          split at hev'
          · next hb =>
            cases hev' with
            | head =>
              exact .inr (.inl ⟨row, (mem row).2 (.inl rfl), hst, hve, .inr hxr,
                fun h => absurd h ha⟩)
            | tail _ hev' =>
              refine .inr (.inr ⟨ha, k', ?_, ev', ?_, hst, hve⟩)
              · rw [of_self]
                exact hk'
              · rw [of_self, Session.batch]
                simp only [hb, if_true]
                exact hev'
          · cases hev'
        · refine .inr (.inr ⟨ha, k', ?_, ev', ?_, hst, hve⟩) <;> rw [of_ne k' hk]
          · exact hk'
          · exact hev'
  · have hview : ∀ r ∈ s.view k', r ∈ s'.view k' := view_mono he hpr fun x hx' => by
      by_cases hk : k' = k
      · subst hk
        rw [of_self]
        exact hx'
      · rw [of_ne k' hk]
        exact hx'
    by_cases hk : k' = k
    · subst hk
      rw [of_self] at hc'
      cases hc'
      refine ⟨fun ha => (List.pairwise_cons.1 (hasc ha)).2, fun e he' => ?_⟩
      obtain ⟨h₀, hfe⟩ := hfed e (.tail _ he')
      refine ⟨h₀, hfe.imp_right ?_⟩
      rintro (⟨p, hp, hpe⟩ | ⟨e', he'', hst, hve⟩)
      · exact .inl ⟨p, hview p hp, hpe⟩
      · cases he'' with
        | head =>
          refine .inl ⟨row, mem_view.2 ⟨(mem row).2 (.inl rfl), .inr ?_, ?_⟩, hst, hve⟩
          · rw [of_self]
            exact hx
          · rw [hpr]
            exact List.not_mem_nil
        | tail _ he'' => exact .inr ⟨e', he'', hst, hve⟩
    · rw [of_ne k' hk] at hc'
      exact (h.phase k' c hc').mono hview

/-- Every step of the store keeps the invariant of its streams. -/
theorem StreamInv.step (h : StreamInv asc s) (hi : SessionInv s) (ha : asc → BatchAscending a)
    (hs : StoreStep s a s') : StreamInv asc s' := by
  have idle : ∀ {k}, (s.sessions k).call = none → (s.sessions k).batch = [] := fun hc => by
    rw [Session.batch, hc]
  cases hs with
  | archive archived => exact ⟨h.unique, h.pos, h.pred, h.phase⟩
  | @begin _ k hc =>
    exact h.update (k := k) hi (.begin (a := a) hc) rfl rfl (fun x hx => .inl (idle hc))
      fun c hc' => by rw [show _ = none from hc] at hc'; cases hc'
  | @leave _ k hx =>
    refine h.update (k := k) hi (.leave (a := a) hx) rfl rfl (fun x hx' => ?_)
      fun c hc => nomatch hc
    rw [hx] at hx'
    cases hx'
  | @commit _ k x log hc hx hl =>
    refine h.update (k := k) hi (.commit (a := a) hc hx hl) (Log.step_rows hl (by simp)) rfl
      (fun x _ => .inl ?_) fun c hc => nomatch hc
    cases hcall : (s.sessions k).call with
    | none => exact idle hcall
    | some c =>
      obtain ⟨n, phase⟩ := c
      obtain rfl : phase = .commit := hc _ hcall
      rw [Session.batch, hcall]
  | @rollback _ k x log hc hx hl =>
    exact h.update (k := k) hi (.rollback (a := a) hc hx hl) (Log.step_rows hl (by simp)) rfl
      (fun x _ => .inl (idle hc)) fun c hc => nomatch hc
  | @start k request phase hc hp =>
    refine h.update (k := k) hi (.start hc hp) rfl rfl (fun x _ => .inl (idle hc)) ?_
    rintro _ ⟨⟩
    cases hp with
    | append | appendRaw => exact ⟨fun _ => List.pairwise_singleton _ _, fun h => nomatch h⟩
    | appendRawBatch hv => exact ⟨hv, ha, fun g hg => .inl hg⟩
    | appendDomainEvent => trivial
  | reject => exact ⟨h.unique, h.pos, h.pred, h.phase⟩
  | @goto _ k n phase phase' hc hp =>
    refine h.update (k := k) hi (.goto (a := a) hc hp) rfl rfl
      (fun x _ => .inl (hp.batch hc)) ?_
    rintro _ ⟨⟩
    exact (hp.ok (h.phase k _ hc) h.pos).mono
      (view_step hi (.goto (a := a) hc hp) fun x hx => (goto_xid s k n phase').trans hx)
  | @claim _ k n w log hc hx hl =>
    refine h.update (k := k) hi (.claim (a := a) hc hx hl) (Log.step_rows hl (by simp)) rfl
      (fun x hx' => ?_) ?_
    · rw [hx] at hx'
      cases hx'
    · rintro _ ⟨⟩
      have hok : (CallPhase.seedCheck w).Ok asc (s.view k) := h.phase k _ hc
      refine hok.mono (view_step hi (.claim (a := a) hc hx hl) fun x hx' => ?_)
      rw [hx] at hx'
      cases hx'
  | @draw _ k n x w ev rest log hc hx hl =>
    have hstep := StoreStep.draw (a := a) hc hx hl
    have hview := view_step (k := k) hi hstep fun x hx => (goto_xid s k n _).trans hx
    obtain ⟨hasc, hfed⟩ := h.phase k _ hc
    refine h.update (k := k) hi hstep (Log.step_rows hl (by simp)) rfl
      (fun x hx => .inr (.inr ⟨hx, ?_⟩)) ?_
    · rw [Session.batch, Session.batch, hc]
    · rintro _ ⟨⟩
      refine (show CallPhase.Ok asc (s.view k) (.place w s.log.nextId ev rest) from
        ⟨hasc, hfed, fun ha => ?_⟩).mono hview
      refine (fed_head (hasc ha) hfed).imp_right ?_
      rintro ⟨p, hp, hpe⟩
      exact ⟨p, hp, hpe, hi.log.id_lt (mem_view.1 hp).1⟩
  | insert hc hu hx hl => exact h.insert hi hc hu hx hl
  | @complete _ k n w hc =>
    refine h.update (k := k) hi (.complete (a := a) hc) rfl rfl (fun x _ => .inl ?_)
      fun c hc => nomatch hc
    rw [Session.batch, hc]
    exact ite_self _
  | @fail _ k c e hc hfi he =>
    refine h.update (k := k) hi (.fail (a := a) hc hfi he) rfl rfl (fun x _ => .inl ?_)
      fun c hc => nomatch hc
    obtain ⟨n, phase⟩ := c
    rw [Session.batch, hc]
    cases phase with
    | draw | place => nomatch hfi
    | _ => rfl
  | @raise _ k c e inTx failed log hc he hl =>
    have hstep := @StoreStep.raise s a k c e inTx failed log hc he hl
    rcases abortLog_cases hl with ⟨hx, rfl⟩ | ⟨y, hx, hl'⟩
    · refine h.update (k := k) hi hstep rfl rfl (fun x hx' => ?_) fun c hc => nomatch hc
      rw [hx] at hx'
      cases hx'
    · refine h.update (k := k) hi hstep (Log.step_rows hl' (by simp)) rfl
        (fun x hx' => .inr (.inl ?_)) fun c hc => nomatch hc
      rw [hx] at hx'
      cases hx'
      exact Log.aborted_of_step hi.log hl'

end

theorem streamInv_initial (asc : Prop) : StreamInv asc .initial where
  unique _ h := nomatch h
  pos _ h := nomatch h
  pred _ h := nomatch h
  phase _ _ h := nomatch h

/-! ## Conditional writes -/

/-- The versions of a stream in the rows. -/
def streamVersions (rows : List EventRow) (stream : String × String) : List ℤ :=
  (rows.filter (·.stream = stream)).map (·.version)

/-- What clients may rely on in a reachable store. -/
structure ConditionalWrites (s : Store) : Prop where
  /-- The committed versions of every stream are `1, …, n`. -/
  contiguous : ∀ stream, Contiguous (streamVersions s.log.visibleRows stream)
  /-- At most one of the appends with one expected version of one stream commits. -/
  once : ∀ w ∈ s.writes, ∀ w' ∈ s.writes, w.xid ∈ s.log.xacts.committed →
    w'.xid ∈ s.log.xacts.committed → w.event.stream = w'.event.stream →
    w.event.expectedVersion = w'.event.expectedVersion → w = w'
  /-- Whatever a failed call had inserted is rolled back. -/
  undone : ∀ f ∈ s.failures, ∀ w ∈ s.writes, w.call = f.call → s.log.xacts.Aborted w.xid

/-- The version is the one that the stream the call appends to has for the transaction of the call: the
call's statements see exactly the versions up to it. -/
def StreamAt (s : Store) (call : ℕ) (aggregateId : String) (version : ℤ) : Prop :=
  ∃ k c ev, (s.sessions k).call = some c ∧ c.number = call ∧ c.phase = .conflicted ev ∧
    ev.aggregateId = aggregateId ∧ Contiguous (streamVersions (s.view k) ev.stream) ∧
    version = (streamVersions (s.view k) ev.stream).length

/-- What the step is in which a call fails: the committed events are what they were, and a current
version that a version conflict reports is the stream's. -/
structure FailsCleanly (s s' : Store) : Prop where
  unchanged : s'.failures ≠ s.failures → s'.log.visibleRows = s.log.visibleRows
  reported : ∀ call aggregateId expected v,
    s'.failures = ⟨call, .versionConflict aggregateId expected (some v)⟩ :: s.failures →
    StreamAt s call aggregateId v

section
variable {asc : Prop} {s : Store} {a : StoreAct} {k : ℕ} {rows : List EventRow}

/-- Some rows of the log that are not rolled back and among which every version has its predecessor
hold contiguous versions of each stream. -/
theorem StreamInv.contiguous (h : StreamInv asc s) (hi : SessionInv s)
    (hsub : rows.Sublist s.log.rows) (hlive : ∀ r ∈ rows, ¬ s.log.xacts.Aborted r.xid)
    (hclosed : ∀ r ∈ rows, r.version ≠ 1 →
      ∃ p ∈ rows, p.stream = r.stream ∧ p.version + 1 = r.version) (stream : String × String) :
    Contiguous (streamVersions rows stream) := by
  have mem : ∀ v, v ∈ streamVersions rows stream ↔ ∃ r ∈ rows, r.stream = stream ∧ r.version = v := by
    simp [streamVersions, and_assoc]
  refine contiguous_of_closed ?_ (fun v hv => ?_) fun v hv hne => ?_
  · refine List.pairwise_map.2 (List.Pairwise.imp_of_mem ?_
      (hi.log.sorted.sublist (List.filter_sublist.trans hsub)))
    intro r r' hr hr' hlt hv
    obtain ⟨hr, hs⟩ := List.mem_filter.1 hr
    obtain ⟨hr', hs'⟩ := List.mem_filter.1 hr'
    have := h.unique r (hsub.subset hr) r' (hsub.subset hr') (hlive r hr) (hlive r' hr')
      ((of_decide_eq_true hs).trans (of_decide_eq_true hs').symm) hv
    exact absurd hlt (this ▸ Nat.lt_irrefl _)
  · obtain ⟨r, hr, -, rfl⟩ := (mem v).1 hv
    exact h.pos r (hsub.subset hr)
  · obtain ⟨r, hr, hs, rfl⟩ := (mem v).1 hv
    obtain ⟨p, hp, hps, hpv⟩ := hclosed r hr hne
    exact (mem _).2 ⟨p, hp, hps.trans hs, by omega⟩

theorem StreamInv.committed_contiguous (h : StreamInv asc s) (hi : SessionInv s)
    (stream : String × String) : Contiguous (streamVersions s.log.visibleRows stream) := by
  have live : ∀ r ∈ s.log.visibleRows, ¬ s.log.xacts.Aborted r.xid := fun r hr hab =>
    hab.2.2 (Log.mem_visibleRows.1 hr).2.1
  refine h.contiguous hi List.filter_sublist live (fun r hr hne => ?_) stream
  obtain ⟨hm, hc, -⟩ := Log.mem_visibleRows.1 hr
  rcases h.pred r hm (live r hr) with h₁ | ⟨p, hp, hs, hv, hx, -⟩ | ⟨-, k, hx, -⟩
  · exact absurd h₁ hne
  · have hx : p.xid ∈ s.log.xacts.committed := hx.elim id fun he => he ▸ hc
    exact ⟨p, Log.mem_visibleRows.2 ⟨hp, hx, by simp [hi.pruned]⟩, hs, hv⟩
  · -- a transaction whose statement is not over has not committed
    exact absurd ((hi.session k).xid _ hx).2 (hi.log.xacts.disjoint _ hc)

/-- A client that has no batch half done sees contiguous versions. -/
theorem StreamInv.view_contiguous (h : StreamInv asc s) (hi : SessionInv s)
    (hb : (s.sessions k).batch = []) (stream : String × String) :
    Contiguous (streamVersions (s.view k) stream) := by
  have live : ∀ r ∈ s.view k, ¬ s.log.xacts.Aborted r.xid := fun r => hi.not_aborted_of_view
  refine h.contiguous hi List.filter_sublist live (fun r hr hne => ?_) stream
  obtain ⟨hm, hv, -⟩ := mem_view.1 hr
  rcases h.pred r hm (live r hr) with h₁ | ⟨p, hp, hs, hpv, hx, -⟩ | ⟨-, k', hx, ev, hev, -⟩
  · exact absurd h₁ hne
  · refine ⟨p, mem_view.2 ⟨hp, ?_, by simp [hi.pruned]⟩, hs, hpv⟩
    rcases hx with hc | he
    · exact .inl hc
    · exact he ▸ hv
  · exfalso
    rcases hv with hc | hv
    · exact absurd ((hi.session k').xid _ hx).2 (hi.log.xacts.disjoint _ hc)
    · by_cases hk : k = k'
      · subst hk
        rw [hb] at hev
        nomatch hev
      · exact (hi.distinct k k' hk).xid _ hv hx

theorem StreamInv.conditionalWrites (h : StreamInv asc s) (hi : SessionInv s) :
    ConditionalWrites s where
  contiguous := h.committed_contiguous hi
  once w hw w' hw' hc hc' hs hv := by
    obtain ⟨r, hr, hid, hx, hrs, hrv⟩ := hi.row w hw
    obtain ⟨r', hr', hid', hx', hrs', hrv'⟩ := hi.row w' hw'
    have he := h.unique r hr r' hr' (fun hab => hab.2.2 (hx ▸ hc))
      (fun hab => hab.2.2 (hx' ▸ hc')) ((hrs.trans hs).trans hrs'.symm)
      (by rw [hrv, hrv', EventToAppend.newVersion, EventToAppend.newVersion, hv])
    exact List.inj_on_of_nodup_map (List.pairwise_map.2 hi.ids) hw hw'
      (hid.symm.trans ((congrArg EventRow.id he).trans hid'))
  undone f hf w hw := hi.failed f hf w hw

end

section
variable {asc : Prop} {s s' : Store} {a : StoreAct}

/-- The step in which a call fails changes nothing that others see. -/
theorem StoreStep.unchanged (hs : StoreStep s a s') (hf : s'.failures ≠ s.failures) :
    s'.log.visibleRows = s.log.visibleRows := by
  cases hs with
  | archive | begin | leave | commit | rollback | start | goto | claim | draw | insert | complete =>
    exact absurd rfl hf
  | reject | fail => rfl
  | raise _ _ hl =>
    rcases abortLog_cases hl with ⟨-, rfl⟩ | ⟨y, -, hl⟩
    · rfl
    · simp only [Log.step, Option.ite_none_right_eq_some, Option.some.injEq] at hl
      obtain ⟨-, rfl⟩ := hl
      rfl

theorem StreamInv.failsCleanly (h : StreamInv asc s) (hi : SessionInv s) (hs : StoreStep s a s') :
    FailsCleanly s s' where
  unchanged := hs.unchanged
  reported call aggregateId expected v hf := by
    -- the call that fails reports the version it has read
    have reports : ∀ {k c e}, (s.sessions k).call = some c → Reports s k c.phase e →
        (⟨c.number, e⟩ : FailedCall) :: s.failures =
          ⟨call, .versionConflict aggregateId expected (some v)⟩ :: s.failures →
        StreamAt s call aggregateId v := by
      intro k c e hc he heq
      simp only [List.cons.injEq, FailedCall.mk.injEq, and_true] at heq
      obtain ⟨rfl, rfl⟩ := heq
      obtain ⟨ev, hph, rfl, rfl⟩ := he _ _ _ rfl
      have hb : (s.sessions k).batch = [] := by
        obtain ⟨n, phase⟩ := c
        simp only at hph
        subst hph
        rw [Session.batch, hc]
      have hcont := h.view_contiguous hi hb ev.stream
      exact ⟨k, c, ev, hc, rfl, hph, rfl, hcont, hcont.max?_getD⟩
    cases hs with
    | archive | begin | leave | commit | rollback | start | goto | claim | draw | insert | complete =>
      exact absurd hf.symm (List.cons_ne_self _ _)
    | reject he =>
      simp only [List.cons.injEq, FailedCall.mk.injEq, and_true] at hf
      exact absurd hf.2 (he _ _ _)
    | fail hc _ he => exact reports hc he hf
    | raise hc he => exact reports hc he hf

/-- In every run a stream's committed versions are `1, …, n`, at most one append with an expected
version commits, what a failed call had inserted is rolled back, the committed events are the same
after a failure as before it, and a current version that is reported is the stream's. -/
theorem conditionalWrites_of_run (hr : Run step (fun _ _ => True) .initial s) :
    ConditionalWrites s ∧ ∀ a s', s.step a = some s' → FailsCleanly s s' := by
  have ⟨hi, h⟩ := hr.invariant (I := fun s => SessionInv s ∧ StreamInv False s)
    ⟨sessionInv_initial, streamInv_initial False⟩ fun _ _ _ ⟨hi, h⟩ _ hs =>
      have hs := StoreStep.of_step hs
      ⟨hi.step hs, h.step hi False.elim hs⟩
  exact ⟨h.conditionalWrites hi, fun _ _ hs => h.failsCleanly hi (.of_step hs)⟩

/-- Streams are append-only: in every run from a reachable store, what could be read of a stream stays as it was, and
what is committed since has a higher version. -/
theorem append_only (s : {s // Run step (fun _ _ => True) .initial s}) (s' : {s' // Run step (fun _ _ => True) s.1 s'}) :
    s.1.log.visibleRows ⊆ s'.1.log.visibleRows ∧ ∀ r ∈ s.1.log.visibleRows, ∀ r' ∈ s'.1.log.visibleRows,
      r.stream = r'.stream → r' ∉ s.1.log.visibleRows → r.version < r'.version := by
  have hkeeps {s s' : Store} (hr : Run step (fun _ _ => True) s s') (h : SessionInv s ∧ StreamInv False s) :
      (SessionInv s' ∧ StreamInv False s') ∧ s.log.Ext s'.log :=
    hr.invariant (I := fun t => (SessionInv t ∧ StreamInv False t) ∧ s.log.Ext t.log) ⟨h, .refl _⟩
      fun _ _ _ h _ hs =>
        have hs := StoreStep.of_step hs
        ⟨⟨h.1.1.step hs, h.1.2.step h.1.1 False.elim hs⟩, h.2.trans (h.1.1.step_log hs).1⟩
  obtain ⟨h, -⟩ := hkeeps s.2 ⟨sessionInv_initial, streamInv_initial False⟩
  obtain ⟨h', hext⟩ := hkeeps s'.2 h
  have hsub : s.1.log.visibleRows ⊆ s'.1.log.visibleRows := fun r hr => by
    obtain ⟨hr, hc, -⟩ := Log.mem_visibleRows.1 hr
    exact Log.mem_visibleRows.2 ⟨hext.rows r hr, hext.xacts.committed _ hc, by simp [h'.1.pruned]⟩
  refine ⟨hsub, fun r hr r' hr' hst hnew => ?_⟩
  -- a version up to one that could be read could be read itself, and is there once
  by_contra hle
  have hcont := h.2.committed_contiguous h.1 r.stream
  have hmem := (hcont.mem_iff (v := r.version)).1 (List.mem_map_of_mem (List.mem_filter.2 ⟨hr, by simp⟩))
  have hpos := h'.2.pos r' (Log.mem_visibleRows.1 hr').1
  obtain ⟨p, hp, hv⟩ := List.mem_map.1 (hcont.mem_iff.2 ⟨hpos, by omega⟩)
  obtain ⟨hp, hps⟩ := List.mem_filter.1 hp
  have hrow := Log.mem_visibleRows.1 (hsub hp)
  have hrow' := Log.mem_visibleRows.1 hr'
  have heq := h'.2.unique p hrow.1 r' hrow'.1 (fun hab => hab.2.2 hrow.2.1) (fun hab => hab.2.2 hrow'.2.1)
    ((of_decide_eq_true hps).trans hst) hv
  exact hnew (heq ▸ hp)

end

/-! ## Two clients and one version -/

/-- An event of an order. -/
def orderEvent (aggregateId : String) (expectedVersion : ℤ) : EventToAppend :=
  { tenantId := "tenant-a", aggregateType := "order", aggregateId, expectedVersion,
    type := "order.changed", idempotencyKey := none, createdAt := none }

/-- Two pool clients write the first event of one stream; the second one has drawn its id when it
meets the first one's row. -/
def race (request : EventToAppend → AppendRequest) : List StoreAct :=
  [.call 0 (request (orderEvent "a" 0)), .call 1 (request (orderEvent "a" 0))] ++
    .replicate 4 (.run 1 0) ++ .replicate 7 (.run 0 0)

/-- The second `append` loses and reports that the stream is at version 1. -/
theorem conditionalWrites_of_run_race : ∃ s s', ConditionalWrites s ∧
    streamVersions s.log.visibleRows ("tenant-a", "a") = [1] ∧ FailsCleanly s s' ∧
    s'.failures = ⟨1, .versionConflict "a" 0 (some 1)⟩ :: s.failures := by
  obtain ⟨s, hr, hs⟩ := exists_run_of_exec step .initial (race .append ++ [.run 1 0])
    (fun s => streamVersions s.log.visibleRows ("tenant-a", "a") == [1] &&
      (s.step (.run 1 0)).any fun s' =>
        s'.failures == ⟨1, .versionConflict "a" 0 (some 1)⟩ :: s.failures) (by decide +kernel)
  simp only [Bool.and_eq_true, beq_iff_eq, Option.any_eq_true] at hs
  obtain ⟨hv, s', hs', hf⟩ := hs
  obtain ⟨hw, hc⟩ := conditionalWrites_of_run hr
  exact ⟨s, s', hw, hv, hc _ s' hs', hf⟩

/-- The second `appendRaw` meets the unique index itself, and its error names no version of the
stream. -/
theorem not_reports_version : ¬ ∀ s a s', Run step (fun _ _ => True) .initial s →
    s.step a = some s' → ∀ call aggregateId expected current,
      s'.failures = ⟨call, .versionConflict aggregateId expected current⟩ :: s.failures →
      ∃ v, current = some v ∧ StreamAt s call aggregateId v := fun h => by
  have ⟨s, hr, hs⟩ := exists_run_of_exec step .initial (race .appendRaw)
    (fun s => (s.step (.run 1 0)).any fun s' =>
      s'.failures == ⟨1, .versionConflict "a" 0 none⟩ :: s.failures) (by decide +kernel)
  simp only [beq_iff_eq, Option.any_eq_true] at hs
  obtain ⟨s', hs', hf⟩ := hs
  obtain ⟨v, hv, -⟩ := h s _ s' hr hs' _ _ _ _ hf
  cases hv

end Store

end Kumiko
