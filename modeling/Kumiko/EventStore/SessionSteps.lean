import Kumiko.EventStore.Sessions

/-!
# Sessions across a step

A step of the store as one session sees it (`SessionStep`): the session goes on with its
transaction, begins or ends one, has a pool runner's write committed, or loses its transaction to an
error. A call in progress after a step is new or was in progress before, and it appends the event it
did (`StoreStep.call`).
-/

namespace Kumiko

/-- The session that takes a step. -/
def StoreAct.session : StoreAct → Option ℕ
  | .begin k | .commit k | .rollback k | .call k _ | .run k _ | .error k => some k
  | .archiveStream _ | .restoreStream _ => none

namespace Store

/-! ## One session across a step -/

section
variable {s s' : Store} {a : StoreAct} {k n now : ℕ} {phase : CallPhase} {e : AppendError}

/-- The session goes on with what it has: its transaction, and as a pool runner also its call. -/
structure Session.GoesOn (σ σ' : Session) : Prop where
  inTx : σ'.inTx = σ.inTx
  failed : σ'.failed = σ.failed
  xid : ∀ x, σ.xid = some x → σ'.xid = some x
  call : σ.inTx = false → ∀ c, σ.call = some c → ∃ c', σ'.call = some c' ∧ c'.number = c.number
  /-- A transaction that an error has aborted claims no id. -/
  dead : σ.failed = true → σ'.xid = σ.xid
  /-- Only a pool runner's call comes to a commit of its own. -/
  commit : ∀ n, σ'.call = some ⟨n, .commit⟩ → σ.call = some ⟨n, .commit⟩ ∨ σ.inTx = false

theorem Session.GoesOn.refl (σ : Session) : Session.GoesOn σ σ :=
  ⟨rfl, rfl, fun _ => id, fun _ c hc => ⟨c, hc, rfl⟩, fun _ => rfl, fun _ => .inl⟩

/-- What a step does to one session. -/
inductive SessionStep (s s' : Store) (k : ℕ) : StoreAct → Prop
  | goesOn {a : StoreAct} (h : Session.GoesOn (s.sessions k) (s'.sessions k)) : SessionStep s s' k a
  | begins (hi : (s.sessions k).inTx = false) (hc : (s.sessions k).call = none)
      (hs : s'.sessions k = { s.sessions k with inTx := true }) : SessionStep s s' k (.begin k)
  /-- The client commits or rolls back. -/
  | ends {a : StoreAct} (ha : a = .commit k ∨ a = .rollback k) (hc : (s.sessions k).call = none)
      (hs : s'.sessions k = .idle) : SessionStep s s' k a
  /-- A pool runner's transaction commits. -/
  | written {a : StoreAct} {c : OpenCall} (hc : (s.sessions k).call = some c)
      (hp : c.phase = .commit) (hs : s'.sessions k = .idle)
      (hx : ∀ x, (s.sessions k).xid = some x → x ∈ s'.log.xacts.committed) : SessionStep s s' k a
  /-- An error rolls the transaction back. -/
  | raises {a : StoreAct} {c : OpenCall} {e : AppendError} (hc : (s.sessions k).call = some c)
      (hf : s'.failures = ⟨c.number, e⟩ :: s.failures)
      (hs : s'.sessions k = ⟨(s.sessions k).inTx, (s.sessions k).inTx, none, none⟩) :
      SessionStep s s' k a

theorem SessionStep.of_eq (h : s'.sessions k = s.sessions k) : SessionStep s s' k a :=
  .goesOn (h ▸ .refl _)

/-- A step of a session's own: the other sessions stay as they are. -/
structure OwnStep (s s' : Store) (k : ℕ) (a : StoreAct) : Prop where
  own : SessionStep s s' k a
  others : ∀ j, j ≠ k → s'.sessions j = s.sessions j

theorem OwnStep.of_update {σ : Session} (hs : s'.sessions = Function.update s.sessions k σ)
    (h : s'.sessions k = σ → SessionStep s s' k a) : OwnStep s s' k a :=
  ⟨h (hs ▸ Function.update_self _ _ _), fun _ hne => hs ▸ Function.update_of_ne hne _ _⟩

/-- The session's call goes on. -/
theorem OwnStep.of_call {phase' : CallPhase} {x : Option ℕ}
    (hc : (s.sessions k).call = some ⟨n, phase⟩)
    (hs : s'.sessions = Function.update s.sessions k
      { s.sessions k with xid := x, call := some ⟨n, phase'⟩ })
    (hl : (s.sessions k).failed = false)
    (hp : phase' = .commit → (s.sessions k).inTx = false)
    (hx : ∀ y, (s.sessions k).xid = some y → x = some y) : OwnStep s s' k a := by
  refine .of_update hs fun hs => .goesOn ⟨by rw [hs], by rw [hs], fun y hy => ?_, fun _ c hc' => ?_,
    fun hf => ?_, fun m hm => ?_⟩
  · rw [hs]
    exact hx y hy
  · rw [hc] at hc'
    cases hc'
    rw [hs]
    exact ⟨⟨n, phase'⟩, rfl, rfl⟩
  · rw [hl] at hf
    cases hf
  · rw [hs] at hm
    cases hm
    exact .inr (hp rfl)

/-- The call ends and its client's transaction goes on. -/
theorem OwnStep.of_return (hi : (s.sessions k).inTx = true)
    (hs : s'.sessions = Function.update s.sessions k { s.sessions k with call := none }) :
    OwnStep s s' k a := by
  refine .of_update hs fun hs => .goesOn ⟨by rw [hs], by rw [hs], fun x hx => by rw [hs]; exact hx,
    fun hn => ?_, fun _ => by rw [hs], fun m hm => ?_⟩
  · rw [hi] at hn
    cases hn
  · rw [hs] at hm
    cases hm

theorem OwnStep.of_raise (hc : (s.sessions k).call = some ⟨n, phase⟩)
    (h : s.raise k n e = some s') : OwnStep s s' k a := by
  obtain ⟨log, -, rfl⟩ := Option.map_eq_some_iff.1 h
  exact .of_update rfl fun hs => .raises hc rfl hs

theorem OwnStep.of_fail (hc : (s.sessions k).call = some ⟨n, phase⟩)
    (h : s.fail k n e = some s') : OwnStep s s' k a := by
  unfold Store.fail at h
  split at h
  · next hi =>
    cases h
    exact .of_return hi rfl
  · exact .of_raise hc h

theorem OwnStep.of_commitTx (hc : (s.sessions k).call = some ⟨n, .commit⟩)
    (h : s.commitTx k = some s') : OwnStep s s' k a := by
  unfold commitTx at h
  split at h
  · next hx =>
    cases h
    refine .of_update rfl fun hs => .written hc rfl hs fun x hx' => ?_
    rw [hx] at hx'
    cases hx'
  · next x hx =>
    obtain ⟨log, hl, rfl⟩ := Option.map_eq_some_iff.1 h
    refine .of_update rfl fun hs => .written hc rfl hs fun y hy => ?_
    rw [hx] at hy
    cases hy
    simp only [Log.step, Option.ite_none_right_eq_some, Option.some.injEq] at hl
    obtain ⟨-, rfl⟩ := hl
    exact .head _

/-- A statement of a call in its own session. -/
theorem OwnStep.of_runCall (hc : (s.sessions k).call = some ⟨n, phase⟩)
    (hl : (s.sessions k).failed = false) (h : s.runCall k now n phase = some s') : OwnStep s s' k a := by
  have goto : ∀ {phase'}, phase' ≠ .commit → s' = s.goto k n phase' → OwnStep s s' k a := by
    rintro phase' hne rfl
    exact .of_call hc rfl hl (fun he => absurd he hne) fun _ => id
  cases phase with
  | archiveCheck ev v =>
    simp only [runCall] at h
    split at h
    · exact .of_fail hc h
    · split at h <;> exact goto (by simp) (Option.some_injective _ h).symm
  | streamVersion ev => exact goto (by simp) (Option.some_injective _ h).symm
  | predecessors first others groups =>
    cases groups with
    | nil => exact goto (by simp) (Option.some_injective _ h).symm
    | cons g groups =>
      simp only [runCall] at h
      split at h
      · exact goto (by simp) (Option.some_injective _ h).symm
      · exact .of_fail hc h
  | duplicates first others =>
    simp only [runCall] at h
    split at h
    · exact .of_fail hc h
    · exact goto (by simp) (Option.some_injective _ h).symm
  | claim w =>
    simp only [runCall] at h
    split at h
    · exact goto (by simp) (Option.some_injective _ h).symm
    · next hx =>
      obtain ⟨log, -, rfl⟩ := Option.map_eq_some_iff.1 h
      refine .of_call hc rfl hl (by simp) fun y hy => ?_
      rw [hx] at hy
      cases hy
  | seedCheck w =>
    simp only [runCall] at h
    split at h
    · exact .of_fail hc h
    · exact goto (by simp) (Option.some_injective _ h).symm
  | gate w =>
    simp only [runCall] at h
    split at h
    · exact goto (by simp) (Option.some_injective _ h).symm
    · cases w with
      | append ev => exact goto (by simp) (Option.some_injective _ h).symm
      | appendRaw | appendRawBatch => exact .of_fail hc h
  | draw w rest =>
    cases rest with
    | nil =>
      simp only [runCall, Option.some.injEq] at h
      subst h
      unfold Store.complete
      split
      · next hi => exact .of_return hi rfl
      · next hi => exact .of_call hc rfl hl (fun _ => by simpa using hi) fun _ => id
    | cons ev rest =>
      obtain ⟨x, -, h⟩ := Option.bind_eq_some_iff.1 h
      obtain ⟨log, -, rfl⟩ := Option.map_eq_some_iff.1 h
      exact .of_call hc rfl hl (by simp) fun _ => id
  | place w i ev rest =>
    simp only [runCall] at h
    split at h
    · cases h
    · exact goto (by simp) (Option.some_injective _ h).symm
    · exact .of_raise hc h
    · obtain ⟨x, -, h⟩ := Option.bind_eq_some_iff.1 h
      obtain ⟨log, -, rfl⟩ := Option.map_eq_some_iff.1 h
      exact .of_call hc rfl hl (by simp) fun _ => id
  | conflicted ev => exact .of_fail hc h
  | commit => exact .of_commitTx hc h

/-- A new call of the session. -/
theorem SessionStep.of_startCall {request : AppendRequest} (hc : (s.sessions k).call = none) :
    SessionStep s (s.startCall k request) k a := by
  have start : ∀ {phase n}, phase ≠ .commit →
      SessionStep s { s.goto k s.nextCall phase with nextCall := n } k a := by
    intro phase n hp
    refine .goesOn ⟨?_, ?_, fun x hx => (goto_xid s k _ _).trans hx, fun _ c hc' => ?_,
      fun _ => goto_xid s k _ _, fun m hm => ?_⟩
    · simp [goto, setSession]
    · simp [goto, setSession]
    · rw [hc] at hc'
      cases hc'
    · simp only [goto, setSession, Function.update_self, Option.some.injEq, OpenCall.mk.injEq] at hm
      exact absurd hm.2 hp
  cases request with
  | append | appendRaw | appendDomainEvent => exact start (by simp)
  | appendRawBatch evs =>
    cases evs with
    | nil => exact .of_eq rfl
    | cons first others =>
      simp only [startCall]
      split
      · exact .of_eq rfl
      · exact start (by simp)

/-- A step leaves the sessions alone that do not take it. -/
theorem step_sessions (h : s.step a = some s') (hk : a.session ≠ some k) : s'.sessions k = s.sessions k := by
  have other : ∀ {j : ℕ} {σ : Session}, some j ≠ some k → Function.update s.sessions j σ k = s.sessions k :=
    fun hne => Function.update_of_ne (fun he => hne (congrArg some he.symm)) _ _
  cases a with
  | begin j =>
    simp only [step] at h
    split at h
    · cases h
    · cases h
      exact other hk
  | commit j =>
    simp only [step, Option.ite_none_right_eq_some] at h
    obtain ⟨-, h⟩ := h
    unfold commitTx at h
    split at h
    · cases h
      exact other hk
    · obtain ⟨log, -, rfl⟩ := Option.map_eq_some_iff.1 h
      exact other hk
  | rollback j =>
    simp only [step, Option.ite_none_right_eq_some] at h
    obtain ⟨log, -, rfl⟩ := Option.map_eq_some_iff.1 h.2
    exact other hk
  | call j request =>
    simp only [step, Option.ite_none_right_eq_some, Option.some.injEq] at h
    obtain ⟨-, rfl⟩ := h
    unfold startCall
    split
    · exact other hk
    · exact other hk
    · rfl
    · split
      · rfl
      · exact other hk
    · exact other hk
  | run j now =>
    obtain ⟨⟨n, phase⟩, hc, h⟩ := Option.bind_eq_some_iff.1 h
    have hown : OwnStep s s' j (.run j now) := by
      split at h
      · exact .of_raise hc h
      · next hf => exact .of_runCall hc (by simpa using hf) h
    exact hown.others k fun he => hk (congrArg some he.symm)
  | error j =>
    obtain ⟨c, -, h⟩ := Option.bind_eq_some_iff.1 h
    obtain ⟨log, -, rfl⟩ := Option.map_eq_some_iff.1 h
    exact other hk
  | archiveStream | restoreStream =>
    cases h
    rfl

/-- Every step, as one session sees it. -/
theorem SessionStep.of_step (h : s.step a = some s') (k : ℕ) : SessionStep s s' k a := by
  by_cases hk : a.session = some k
  swap
  · exact .of_eq (step_sessions h hk)
  cases a with
  | begin j =>
    cases hk
    simp only [step] at h
    split at h
    · cases h
    · next hn =>
      cases h
      simp only [not_or, Bool.not_eq_true, Option.isSome_eq_false_iff, Option.isNone_iff_eq_none] at hn
      exact .begins hn.1 hn.2 (Function.update_self _ _ _)
  | commit j =>
    cases hk
    simp only [step, Option.ite_none_right_eq_some] at h
    obtain ⟨⟨-, hc⟩, h⟩ := h
    refine .ends (.inl rfl) hc ?_
    unfold commitTx at h
    split at h
    · cases h
      exact Function.update_self _ _ _
    · obtain ⟨log, -, rfl⟩ := Option.map_eq_some_iff.1 h
      exact Function.update_self _ _ _
  | rollback j =>
    cases hk
    simp only [step, Option.ite_none_right_eq_some] at h
    obtain ⟨⟨-, hc⟩, h⟩ := h
    obtain ⟨log, -, rfl⟩ := Option.map_eq_some_iff.1 h
    exact .ends (.inr rfl) hc (Function.update_self _ _ _)
  | call j request =>
    cases hk
    simp only [step, Option.ite_none_right_eq_some, Option.some.injEq] at h
    obtain ⟨hc, rfl⟩ := h
    exact .of_startCall hc
  | run j now =>
    cases hk
    obtain ⟨⟨n, phase⟩, hc, h⟩ := Option.bind_eq_some_iff.1 h
    split at h
    · exact (OwnStep.of_raise hc h).own
    · next hf => exact (OwnStep.of_runCall hc (by simpa using hf) h).own
  | error j =>
    cases hk
    obtain ⟨⟨n, phase⟩, hc, h⟩ := Option.bind_eq_some_iff.1 h
    exact (OwnStep.of_raise hc h).own
  | archiveStream | restoreStream => cases hk

/-- A call that goes on does so by a statement of its own. -/
theorem run_of_call {c c' : OpenCall} (h : s.step a = some s') (hc : (s.sessions k).call = some c)
    (hc' : (s'.sessions k).call = some c') (hne : c' ≠ c) : ∃ now, a = .run k now := by
  have hk : a.session = some k := by
    by_contra hk
    rw [step_sessions h hk, hc] at hc'
    exact hne (Option.some_injective _ hc').symm
  cases a with
  | run j now =>
    cases hk
    exact ⟨now, rfl⟩
  | begin | commit | rollback | call =>
    cases hk
    simp [step, hc] at h
  | error =>
    cases hk
    obtain ⟨c, -, h⟩ := Option.bind_eq_some_iff.1 h
    obtain ⟨log, -, rfl⟩ := Option.map_eq_some_iff.1 h
    simp [setSession] at hc'
  | archiveStream | restoreStream => cases hk

end

end Store

/-! ## One call across a step -/

/-- The call appends the event, if any. -/
def CallPhase.Carries (ev : EventToAppend) : CallPhase → Prop
  | .archiveCheck ev' v => ∃ u, v = some u ∧ { ev' with expectedVersion := u } = ev
  | .claim w | .seedCheck w | .gate w | .draw w _ | .place w _ _ _ => w = .append ev
  | .conflicted ev' => ev' = ev
  | .commit => True
  | _ => False

namespace Store

section
variable {s s' : Store} {a : StoreAct} {k : ℕ} {phase phase' : CallPhase} {ev : EventToAppend}
  {c : OpenCall}

theorem PhaseStep.carries (hp : PhaseStep s k phase phase') (h : phase.Carries ev) :
    phase'.Carries ev := by
  cases hp with
  | unpinned =>
    obtain ⟨u, hu, -⟩ := h
    cases hu
  | pinned =>
    obtain ⟨u, hu, rfl⟩ := h
    cases hu
    rfl
  | streamVersion | predecessor | predecessors | duplicates => exact h.elim
  | claimed | seedCheck | gate => exact h
  | missed | conflict =>
    cases h
    rfl
  | complete => trivial

/-- A call in progress is new, or it was in progress before and appends what it did. -/
theorem StoreStep.call (hs : StoreStep s a s') (hc : (s'.sessions k).call = some c) :
    (∃ request, a = .call k request ∧ c.number = s.nextCall ∧ Starts request c.phase) ∨
      ∃ c₀, (s.sessions k).call = some c₀ ∧ c₀.number = c.number ∧
        ∀ ev, c₀.phase.Carries ev → c.phase.Carries ev := by
  have old : (s.sessions k).call = some c → ∃ c₀, (s.sessions k).call = some c₀ ∧
      c₀.number = c.number ∧ ∀ ev, c₀.phase.Carries ev → c.phase.Carries ev :=
    fun h => ⟨c, h, rfl, fun _ => id⟩
  -- the session that moves, and the others
  have move : ∀ {j n : ℕ} {p p' : CallPhase} {σ : Session}, (s.sessions j).call = some ⟨n, p⟩ →
      (Function.update s.sessions j σ k).call = some c → (σ.call = some ⟨n, p'⟩) →
      (∀ ev, p.Carries ev → p'.Carries ev) → ∃ c₀, (s.sessions k).call = some c₀ ∧
        c₀.number = c.number ∧ ∀ ev, c₀.phase.Carries ev → c.phase.Carries ev := by
    intro j n p p' σ hj hc hσ hp
    by_cases hk : k = j
    · subst hk
      rw [Function.update_self, hσ] at hc
      cases hc
      exact ⟨_, hj, rfl, hp⟩
    · rw [Function.update_of_ne hk] at hc
      exact old hc
  have stop : ∀ {j : ℕ} {σ : Session}, (Function.update s.sessions j σ k).call = some c →
      σ.call = none → ∃ c₀, (s.sessions k).call = some c₀ ∧
        c₀.number = c.number ∧ ∀ ev, c₀.phase.Carries ev → c.phase.Carries ev := by
    intro j σ hc hσ
    by_cases hk : k = j
    · subst hk
      rw [Function.update_self, hσ] at hc
      cases hc
    · rw [Function.update_of_ne hk] at hc
      exact old hc
  cases hs with
  | archive | reject => exact .inr (old hc)
  | begin hc₀ => exact .inr (stop hc hc₀)
  | leave | commit | rollback => exact .inr (stop hc rfl)
  | complete | fail | raise => exact .inr (stop hc rfl)
  | @start j request phase hc₀ hp =>
    by_cases hk : k = j
    · subst hk
      have hcall : (s.setSession k { s.sessions k with call := some ⟨s.nextCall, phase⟩ }).sessions k
          = { s.sessions k with call := some ⟨s.nextCall, phase⟩ } := Function.update_self _ _ _
      have := (congrArg (·.call) hcall).symm.trans hc
      cases this
      exact .inl ⟨request, rfl, rfl, hp⟩
    · refine .inr (old ?_)
      change (Function.update s.sessions j _ k).call = some c at hc
      rwa [Function.update_of_ne hk] at hc
  | goto hj hp => exact .inr (move hj hc rfl fun _ => hp.carries)
  | claim hj => exact .inr (move hj hc rfl fun _ => id)
  | draw hj => exact .inr (move hj hc rfl fun _ => id)
  | insert hj => exact .inr (move hj hc rfl fun _ => id)

/-- What a step writes. -/
theorem StoreStep.writes (hs : StoreStep s a s') : s'.writes = s.writes ∨
    ∃ k n x id w ev rest, (s.sessions k).call = some ⟨n, .place w id ev rest⟩ ∧
      s.uniqueCheck k ev = .free ∧ (s.sessions k).xid = some x ∧
      s'.writes = s.writes ++ [⟨n, ev, id, x⟩] ∧
      (s'.sessions k).call = some ⟨n, .draw w rest⟩ := by
  cases hs with
  | @insert _ k n x id now w ev rest log hc hu hx =>
    refine .inr ⟨k, n, x, id, w, ev, rest, hc, hu, hx, rfl, ?_⟩
    exact congrArg (·.call) (Function.update_self k
      { s.sessions k with call := some ⟨n, .draw w rest⟩ } s.sessions)
  | _ => exact .inl rfl

theorem StoreStep.failures_subset (hs : StoreStep s a s') : s.failures ⊆ s'.failures := by
  cases hs with
  | reject | fail | raise => exact List.subset_cons_self _ _
  | _ => exact List.Subset.refl _

theorem StoreStep.nextCall_le (hs : StoreStep s a s') : s.nextCall ≤ s'.nextCall := by
  cases hs with
  | start | reject => exact Nat.le_succ _
  | _ => exact le_rfl

/-! ## What the sessions keep about their transactions -/

/-- An aborted transaction has no id, and only pool runners commit by themselves. -/
structure TxInv (s : Store) : Prop where
  failed : ∀ k, (s.sessions k).failed = true → (s.sessions k).xid = none
  commit : ∀ k n, (s.sessions k).call = some ⟨n, .commit⟩ → (s.sessions k).inTx = false

theorem txInv_initial : TxInv .initial :=
  ⟨(fun _ h => nomatch h), (fun _ _ h => nomatch h)⟩

theorem TxInv.step (h : TxInv s) (hs : ∀ k, SessionStep s s' k a) : TxInv s' where
  failed k hf := by
    cases hs k with
    | goesOn hg => exact (hg.dead (hg.failed ▸ hf)).trans (h.failed k (hg.failed ▸ hf))
    | begins _ _ hσ =>
      rw [hσ] at hf ⊢
      exact h.failed k hf
    | ends _ _ hσ | written _ _ hσ =>
      rw [hσ]
      rfl
    | raises _ _ hσ => rw [hσ]
  commit k n hc := by
    cases hs k with
    | goesOn hg =>
      rw [hg.inTx]
      exact (hg.commit n hc).elim (h.commit k n) id
    | begins _ hc₀ hσ =>
      rw [hσ, hc₀] at hc
      cases hc
    | ends _ _ hσ | written _ _ hσ | raises _ _ hσ =>
      rw [hσ] at hc
      cases hc

end

end Store

end Kumiko
