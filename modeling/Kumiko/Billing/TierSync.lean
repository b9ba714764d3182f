import Kumiko.Library.Run

/-!
# The tier of a subscription

`billing-foundation/subscription-tier-sync.ts` for one tenant. A sync queries the subscription, then the tier
assignment, and writes it pinned to the version read. The pin does not protect the subscription, and a sync that
has read an older one may come last; `tier_follows_of_run` excludes that.
-/

namespace Kumiko

open Transition

/-- What the sync reads of a subscription. -/
structure SubscriptionState where
  status : Option String
  tier : Option String
  deriving DecidableEq

/-- Reference: `SubscriptionTierSyncDeps`. -/
structure TierSyncDeps where
  isTierName : String → Bool
  defaultTier : String

/-- Reference: `effectiveTierFromSubscription`. -/
def TierSyncDeps.effectiveTierFromSubscription (deps : TierSyncDeps) (sub : SubscriptionState) : String :=
  let usable := sub.status = some "active" ∨ sub.status = some "trialing"
  match sub.tier with
  | some tier => if usable ∧ deps.isTierName tier then tier else deps.defaultTier
  | none => deps.defaultTier

/-- Reference: `TierAssignmentSources`. -/
inductive TierAssignmentSource where
  | manual
  | billing
  | default
  deriving DecidableEq

/-- Reference: `ExistingTierAssignment`. -/
structure TierAssignment where
  version : ℕ
  tier : String
  source : Option TierAssignmentSource
  deriving DecidableEq

/-- Reference: the codes of `SyncError`. -/
inductive SyncErrorCode where
  | tierSyncFailed
  | manualGrantSkipped

/-- Before which query or write a sync is. -/
inductive SyncPhase where
  | listSubscriptions
  | listAssignments (effective : String)
  | create (effective : String)
  | update (effective : String) (version : ℕ)

/-- The subscription and the assignment of the tenant, the syncs, and the errors they have reported. -/
structure TierStore (n : ℕ) where
  subscription : Option SubscriptionState
  assignment : Option TierAssignment
  phases : Fin n → Option SyncPhase
  errors : List SyncErrorCode

inductive TierAct (n : ℕ) where
  /-- A webhook commits its event, which may leave the subscription as it is, and starts its sync. -/
  | deliver (k : Fin n) (change : Option SubscriptionState)
  /-- The next query or write of the sync. -/
  | run (k : Fin n)
  /-- A query or a write of the sync throws. -/
  | fail (k : Fin n)

namespace TierStore

variable {n : ℕ} (deps : TierSyncDeps) (s : TierStore n)

/-- A tenant without a subscription. -/
def initial (assignment : Option TierAssignment) : TierStore n := ⟨none, assignment, fun _ => none, []⟩

def setPhase (k : Fin n) (phase : Option SyncPhase) : TierStore n :=
  { s with phases := Function.update s.phases k phase }

def report (k : Fin n) (code : SyncErrorCode) : TierStore n :=
  { s.setPhase k none with errors := s.errors ++ [code] }

def assign (k : Fin n) (assignment : TierAssignment) : TierStore n :=
  { s.setPhase k none with assignment := some assignment }

/-- The next query or write of a sync. A write that meets another version, or an assignment where it creates one, is
refused. Reference: `runTierSync`. -/
def runTierSync (k : Fin n) : SyncPhase → TierStore n
  | .listSubscriptions =>
    match s.subscription with
    | none => s.setPhase k none
    | some sub => s.setPhase k (some (.listAssignments (deps.effectiveTierFromSubscription sub)))
  | .listAssignments effective =>
    match s.assignment with
    | none => s.setPhase k (some (.create effective))
    | some assignment =>
      if assignment.tier = effective then s.setPhase k none
      else if assignment.source = some .manual then s.report k .manualGrantSkipped
      else s.setPhase k (some (.update effective assignment.version))
  | .create effective =>
    match s.assignment with
    | none => s.assign k ⟨1, effective, some .billing⟩
    | some _ => s.report k .tierSyncFailed
  | .update effective version =>
    match s.assignment with
    | none => s.report k .tierSyncFailed
    | some assignment =>
      if assignment.version = version then s.assign k ⟨version + 1, effective, some .billing⟩
      else s.report k .tierSyncFailed

def step : TierAct n → Option (TierStore n)
  | .deliver k change =>
    if (s.phases k).isSome then none
    else some { s.setPhase k (some .listSubscriptions) with subscription := change.or s.subscription }
  | .run k => (s.phases k).map (s.runTierSync deps k)
  | .fail k => (s.phases k).map fun _ => s.report k .tierSyncFailed

/-! ## What every run maintains -/

/-- The tier that the write of a sync is of, where it goes through. -/
def writes : SyncPhase → Option String
  | .create effective => if s.assignment = none then some effective else none
  | .update effective version => if s.assignment.any (·.version = version) then some effective else none
  | .listSubscriptions | .listAssignments _ => none

/-- A sync writes the tier that the subscription yields by then. -/
def WritesCurrent (s : TierStore n) : TierAct n → Prop
  | .run k => ∀ phase effective sub, s.phases k = some phase → s.writes phase = some effective →
      s.subscription = some sub → effective = deps.effectiveTierFromSubscription sub
  | .deliver .. | .fail _ => True

/-- The sync is about to read the subscription, or has derived the tier from it. -/
def Carries (tier : String) : SyncPhase → Prop
  | .listSubscriptions => True
  | .listAssignments effective | .create effective | .update effective _ => effective = tier

/-- Where no sync has failed, the assignment is right or manual, or a sync is on its way that makes it right. -/
def TierInv (s : TierStore n) : Prop :=
  .tierSyncFailed ∉ s.errors → ∀ sub, s.subscription = some sub →
    (∃ a, s.assignment = some a ∧ (a.tier = deps.effectiveTierFromSubscription sub ∨ a.source = some .manual)) ∨
      ∃ k phase, s.phases k = some phase ∧ Carries (deps.effectiveTierFromSubscription sub) phase

/-! ## Steps -/

variable {deps} {s s' : TierStore n} {k : Fin n} {phase : SyncPhase}

/-- A sync that goes on, and carries the tier where it did. -/
theorem TierInv.setPhase {phase' : Option SyncPhase} (h : s.TierInv deps) (hphase : s.phases k = some phase)
    (hcarries : ∀ sub, s.subscription = some sub → Carries (deps.effectiveTierFromSubscription sub) phase →
      (∃ p, phase' = some p ∧ Carries (deps.effectiveTierFromSubscription sub) p) ∨
        ∃ a, s.assignment = some a ∧ (a.tier = deps.effectiveTierFromSubscription sub ∨ a.source = some .manual)) :
    (s.setPhase k phase').TierInv deps := by
  intro herr sub hsub
  rcases h herr sub hsub with hright | ⟨k', p, hp, hc⟩
  · exact .inl hright
  · rcases eq_or_ne k' k with rfl | hne
    · cases hphase.symm.trans hp
      rcases hcarries sub hsub hc with ⟨p, rfl, hc⟩ | hright
      · exact .inr ⟨k', p, Function.update_self .., hc⟩
      · exact .inl hright
    · exact .inr ⟨k', p, (Function.update_of_ne hne ..).trans hp, hc⟩

theorem tierInv_report_failed : (s.report k .tierSyncFailed).TierInv deps :=
  fun herr => absurd (List.mem_append.2 (.inr (.head _))) herr

theorem TierInv.assign {assignment : TierAssignment}
    (hcurrent : ∀ sub, s.subscription = some sub → assignment.tier = deps.effectiveTierFromSubscription sub) :
    (s.assign k assignment).TierInv deps :=
  fun _ sub hsub => .inl ⟨assignment, rfl, .inl (hcurrent sub hsub)⟩

theorem TierInv.runTierSync (h : s.TierInv deps) (hphase : s.phases k = some phase)
    (hok : s.WritesCurrent deps (.run k)) : (s.runTierSync deps k phase).TierInv deps := by
  have hwrites := fun effective sub => hok phase effective sub hphase
  cases phase with
  | listSubscriptions =>
    rw [TierStore.runTierSync]
    cases hsub : s.subscription with
    | none => exact h.setPhase hphase fun sub hsome => by rw [hsub] at hsome; cases hsome
    | some sub =>
      refine h.setPhase hphase fun sub' hsome _ => .inl ⟨_, rfl, ?_⟩
      rw [hsub] at hsome
      cases hsome
      rfl
  | listAssignments effective =>
    rw [TierStore.runTierSync]
    cases ha : s.assignment with
    | none => exact h.setPhase hphase fun sub _ hc => .inl ⟨_, rfl, hc⟩
    | some a =>
      dsimp only
      split
      · next htier => exact h.setPhase hphase fun sub _ hc => .inr ⟨a, ha, .inl (htier.trans hc)⟩
      · split
        · next hmanual =>
          have hset : (s.setPhase k none).TierInv deps :=
            h.setPhase hphase fun sub _ _ => .inr ⟨a, ha, .inr hmanual⟩
          exact fun herr => hset fun hin => herr (List.mem_append.2 (.inl hin))
        · exact h.setPhase hphase fun sub _ hc => .inl ⟨_, rfl, hc⟩
  | create effective =>
    rw [TierStore.runTierSync]
    cases ha : s.assignment with
    | none => exact .assign fun sub hsub => hwrites effective sub (if_pos ha) hsub
    | some a => exact tierInv_report_failed
  | update effective version =>
    rw [TierStore.runTierSync]
    cases ha : s.assignment with
    | none => exact tierInv_report_failed
    | some a =>
      dsimp only
      split
      · next hversion =>
        refine .assign fun sub hsub => hwrites effective sub (if_pos ?_) hsub
        rw [ha, Option.any_some]
        exact decide_eq_true hversion
      · exact tierInv_report_failed

theorem TierInv.step {a : TierAct n} (h : s.TierInv deps) (hok : s.WritesCurrent deps a)
    (hs : s.step deps a = some s') : s'.TierInv deps := by
  cases a with
  | deliver k change =>
    rw [TierStore.step] at hs
    split at hs
    · cases hs
    · cases hs
      exact fun _ sub _ => .inr ⟨k, .listSubscriptions, Function.update_self .., trivial⟩
  | run k =>
    obtain ⟨phase, hphase, rfl⟩ := Option.map_eq_some_iff.1 hs
    exact h.runTierSync hphase hok
  | fail k =>
    obtain ⟨phase, hphase, rfl⟩ := Option.map_eq_some_iff.1 hs
    exact tierInv_report_failed

/-- Where every sync writes the tier that the subscription yields by then, and all of them are through without an
error, the assignment is of the tier of the subscription, unless it is a manual grant. -/
theorem tier_follows_of_run {assignment : Option TierAssignment} {sub : SubscriptionState}
    (hr : Run (TierStore.step deps) (WritesCurrent deps) (initial (n := n) assignment) s)
    (hidle : ∀ k, s.phases k = none) (herr : .tierSyncFailed ∉ s.errors) (hsub : s.subscription = some sub)
    (hmanual : ∀ a, s.assignment = some a → a.source ≠ some .manual) :
    s.assignment.map (·.tier) = some (deps.effectiveTierFromSubscription sub) := by
  have hinv : s.TierInv deps := by
    refine hr.invariant (fun _ sub hnone => ?_) fun _ _ _ h hok hs => h.step hok hs
    cases hnone
  rcases hinv herr sub hsub with ⟨a, ha, htier | hgrant⟩ | ⟨k, phase, hphase, -⟩
  · rw [ha, Option.map_some, htier]
  · exact absurd hgrant (hmanual a ha)
  · rw [hidle k] at hphase
    cases hphase

/-! ## Runs -/

/-- The condition, evaluated. -/
def writesCurrentB (deps : TierSyncDeps) (s : TierStore n) : TierAct n → Bool
  | .run k => (s.phases k).all fun phase => (s.writes phase).all fun effective => s.subscription.all fun sub =>
      effective = deps.effectiveTierFromSubscription sub
  | .deliver .. | .fail _ => true

theorem writesCurrent_of_check {a : TierAct n} (h : writesCurrentB deps s a = true) : s.WritesCurrent deps a := by
  cases a with
  | run k =>
    intro phase effective sub hphase hwrites hsub
    rw [writesCurrentB, hphase, Option.all_some, hwrites, Option.all_some, hsub, Option.all_some] at h
    exact of_decide_eq_true h
  | deliver k change => trivial
  | fail k => trivial

/-- Reference: the tiers of `subscription-tier-sync.test.ts`. -/
def sampleTierDeps : TierSyncDeps := ⟨fun tier => tier = "free" ∨ tier = "pro", "free"⟩

def proActive : SubscriptionState := ⟨some "active", some "pro"⟩

def proCanceled : SubscriptionState := ⟨some "canceled", some "pro"⟩

/-- A webhook that creates the subscription and one that cancels it, each with its sync. -/
theorem tier_follows_of_run_canceled : ∃ s : TierStore 2,
    s.subscription = some proCanceled ∧ s.assignment.map (·.tier) = some "free" := by
  obtain ⟨s, hr, hs⟩ := exists_run_of_execOk (TierStore.step sampleTierDeps) (writesCurrentB sampleTierDeps)
    (initial (n := 2) none)
    [.deliver 0 (some proActive), .run 0, .run 0, .run 0, .deliver 1 (some proCanceled), .run 1, .run 1, .run 1]
    (fun s => decide (s.subscription = some proCanceled ∧ (∀ k, s.phases k = none) ∧ s.errors = [] ∧
      s.assignment.map (·.source) = some (some .billing)))
    (fun s a h => writesCurrent_of_check h) (by decide +kernel) (by decide +kernel)
  obtain ⟨hsub, hidle, herr, hsource⟩ := of_decide_eq_true hs
  refine ⟨s, hsub, tier_follows_of_run hr hidle (by rw [herr]; exact List.not_mem_nil) hsub fun a ha => ?_⟩
  rw [ha, Option.map_some, Option.some_inj] at hsource
  rw [hsource]
  decide

/-- A sync that has read the subscription before it was canceled writes its tier after the other sync has found
nothing to do. -/
theorem stale_sync_keeps_tier : ¬∀ (s : TierStore 2) (sub : SubscriptionState),
    Run (TierStore.step sampleTierDeps) (fun _ _ => True) (initial (some ⟨1, "free", some .default⟩)) s →
      (∀ k, s.phases k = none) → s.errors = [] → s.subscription = some sub →
      (∀ a, s.assignment = some a → a.source ≠ some .manual) →
      s.assignment.map (·.tier) = some (sampleTierDeps.effectiveTierFromSubscription sub) := by
  intro h
  obtain ⟨s, hr, hs⟩ := exists_run_of_exec (TierStore.step sampleTierDeps)
    (initial (n := 2) (some ⟨1, "free", some .default⟩))
    [.deliver 0 (some proActive), .run 0, .deliver 1 (some proCanceled), .run 1, .run 1, .run 0, .run 0]
    (fun s => decide (s.subscription = some proCanceled ∧ (∀ k, s.phases k = none) ∧ s.errors = [] ∧
      s.assignment = some ⟨2, "pro", some .billing⟩)) (by decide +kernel)
  obtain ⟨hsub, hidle, herr, hassignment⟩ := of_decide_eq_true hs
  have htier := h s proCanceled hr hidle herr hsub fun a ha => by
    rw [hassignment] at ha
    cases ha
    decide
  rw [hassignment] at htier
  exact absurd htier (by decide)

end TierStore

end Kumiko
