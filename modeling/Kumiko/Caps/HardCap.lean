import Mathlib.Algebra.Order.BigOperators.Group.List
import Mathlib.Algebra.Order.Ring.Nat
import Kumiko.Caps.Clients

/-!
# No booking past the hard threshold

A guard judges the usage read before the append, and the append insists on the version that was read first. A
rolling cap's usage also moves with the clock: an increment leaves the window before its release does, and until
then the release hides other units. Where no release leaves between the sum and the append, every guarded
booking is below the threshold (`hard_cap_of_run`).
-/

namespace Kumiko

open Transition

/-! ## What the clock does to the sums -/

namespace CapEvent

/-- An increment that has left the window does not come back. -/
theorem incrementIn_anti {window now now' : ℕ} (h : now ≤ now') (e : CapEvent) :
    e.incrementIn window now' ≤ e.incrementIn window now := by
  cases e with
  | incremented amount createdAt =>
    simp only [incrementIn]
    split
    · rw [if_pos (by omega)]
    · exact Nat.zero_le _
  | counted value => exact le_rfl
  | released amount createdAt incrementedAt => exact le_rfl

end CapEvent

/-- The sum of the increments only falls as time passes. -/
theorem sumIncremented_anti {window now now' : ℕ} (h : now ≤ now') (es : List CapEvent) :
    sumIncremented window now' es ≤ sumIncremented window now es :=
  List.sum_le_sum fun e _ => e.incrementIn_anti h

namespace Caps

variable {n : ℕ} {s s' : Caps n} {k : Fin n} {a : CapAct n}

/-! ## The invariant -/

/-- What a command knows of the usage it is about to book on: nothing where the stream has grown. -/
def UsageRead (now : ℕ) (es : List CapEvent) (b : CapBooking) (value : ℤ) (readAt : ℕ) : Prop :=
  match b.window with
  | none => b.guard = none ∨ capValue es = value
  | some window => 0 ≤ value ∧ (sumIncremented window now es : ℤ) ≤ value + sumReleased window readAt es

/-- A phase that has judged the usage has judged it on the stream with the version it has read. -/
def Judged (now : ℕ) (view : CapKey → List CapEvent) : CapPhase → Prop
  | .readCounter b => b.window = none
  | .readVersion b => b.window = none → b.guard = none
  | .sumIncremented b version => b.window.isSome ∧ version ≤ (view b.key).length
  | .sumReleased b version incremented =>
    b.window.isSome ∧ version ≤ (view b.key).length ∧
      ((view b.key).length = version → sumIncremented (b.window.getD 0) now (view b.key) ≤ incremented)
  | .append b value version readAt =>
    ¬ b.Rejected value ∧ version ≤ (view b.key).length ∧
      ((view b.key).length = version → UsageRead now (view b.key) b value readAt)
  | _ => True

/-- The booking was below the hard threshold of its guard when its event was appended. -/
def BelowHardCap (booked : Appended) : Prop :=
  ∀ cap ∈ booked.booking.guard, (booked.usage + booked.booking.amount - 1 : ℤ) < cap.limit * cap.hard

instance (booked : Appended) : Decidable (BelowHardCap booked) :=
  inferInstanceAs (Decidable (∀ cap ∈ booked.booking.guard, _))

/-- No release has left the window between the sum and the append of a rolling reservation. -/
def ReleasesStay (s : Caps n) : CapAct n → Prop
  | .run k => match (s.clients k).phase with
    | .append b _ _ readAt => ∀ window ∈ b.window,
      sumReleased window readAt (s.view k b.key) ≤ sumReleased window s.now (s.view k b.key)
    | _ => True
  | _ => True

instance (s : Caps n) (a : CapAct n) : Decidable (s.ReleasesStay a) := by
  unfold ReleasesStay
  match a with
  | .run k =>
    dsimp only
    match (s.clients k).phase with
    | .append .. => exact inferInstanceAs (Decidable (∀ window ∈ _, _ ≤ _))
    | .idle | .done | .fetch _ | .claim _ | .tombstone _ | .confirm _ | .readCounter _ | .readVersion _
    | .sumIncremented .. | .sumReleased .. | .write _ => exact .isTrue trivial
  | .tick _ | .beginOwn .. | .beginHandler .. | .call .. | .commit _ | .abort _ | .sweepTombstone _ =>
    exact .isTrue trivial

structure HardCapInv (s : Caps n) : Prop where
  judged : ∀ k, Judged s.now (s.view k) (s.clients k).phase
  staged : ∀ k, ∀ b ∈ (s.clients k).staged, BelowHardCap b
  booked : ∀ b ∈ s.booked, BelowHardCap b

/-- Nothing is booked. -/
theorem hardCapInv_initial : HardCapInv (initial : Caps n) where
  judged _ := trivial
  staged _ := fun _ hb => nomatch hb
  booked := fun _ hb => nomatch hb

/-- What is known of a usage stays true as time passes. -/
theorem UsageRead.later {now now' : ℕ} {es : List CapEvent} {b : CapBooking} {value : ℤ} {readAt : ℕ}
    (h : UsageRead now es b value readAt) (hnow : now ≤ now') : UsageRead now' es b value readAt := by
  unfold UsageRead at *
  split at h
  · exact h
  · next window _ =>
    have hless : sumIncremented window now' es ≤ sumIncremented window now es := sumIncremented_anti hnow es
    exact ⟨h.1, le_trans (by exact_mod_cast hless) h.2⟩

/-- Time passes and streams grow. -/
theorem Judged.later {now now' : ℕ} {view view' : CapKey → List CapEvent} {phase : CapPhase}
    (h : Judged now view phase) (hnow : now ≤ now') (hview : ∀ key, ∃ new, view' key = view key ++ new) :
    Judged now' view' phase := by
  have hlength : ∀ {key version}, version ≤ (view key).length → version ≤ (view' key).length := by
    intro key version hle
    obtain ⟨new, hnew⟩ := hview key
    rw [hnew, List.length_append]
    omega
  cases phase with
  | sumIncremented b version => exact ⟨h.1, hlength h.2⟩
  | sumReleased b version incremented =>
    obtain ⟨hwindow, hle, hread⟩ := h
    refine ⟨hwindow, hlength hle, fun hlen => ?_⟩
    obtain ⟨new, hnew⟩ := hview b.key
    have hsame := eq_of_version hle hnew hlen
    rw [hsame] at hlen ⊢
    exact le_trans (sumIncremented_anti hnow _) (hread hlen)
  | append b value version readAt =>
    obtain ⟨hjudged, hle, hread⟩ := h
    refine ⟨hjudged, hlength hle, fun hlen => ?_⟩
    obtain ⟨new, hnew⟩ := hview b.key
    have hsame := eq_of_version hle hnew hlen
    rw [hsame] at hlen ⊢
    exact (hread hlen).later hnow
  | readCounter b => exact h
  | readVersion b => exact h
  | _ => trivial

/-! ## Steps -/

/-- A booking without a guard has nothing to judge. -/
theorem judged_bookCalendarDelta (now : ℕ) (view : CapKey → List CapEvent) (key : CapKey) (delta : ℤ)
    (next : RowWrite) : Judged now view (bookCalendarDelta key delta next) := by
  unfold bookCalendarDelta
  split
  · trivial
  · rfl

theorem judged_giveBackReservation (now : ℕ) (view : CapKey → List CapEvent) (claimed : CapReservationRow) :
    Judged now view (giveBackReservation claimed) := by
  simp only [giveBackReservation]
  split
  · exact fun _ => rfl
  · split
    · split <;> trivial
    · rfl

/-- Nothing that follows the claim of a row is guarded. -/
theorem judged_afterClaim {now : ℕ} {view : CapKey → List CapEvent} {op : CapOp} {tenantId : String}
    {claimed : CapReservationRow} {phase : CapPhase} (h : op.afterClaim tenantId claimed = some phase) :
    Judged now view phase := by
  cases op with
  | release id =>
    cases h
    split
    · trivial
    · exact judged_giveBackReservation ..
  | settle id capName periodStartIso actualAmount =>
    simp only [CapOp.afterClaim] at h
    split at h
    · cases h
    · cases h
      exact judged_bookCalendarDelta ..
  | consume id capName periodStartIso units =>
    simp only [CapOp.afterClaim] at h
    split at h
    · cases h
      exact judged_bookCalendarDelta ..
    · split at h
      · cases h
      · cases h
        trivial
  | _ => cases h

theorem judged_withoutRow {now : ℕ} {view : CapKey → List CapEvent} {op : CapOp} {tenantId : String}
    {phase : CapPhase} (h : op.withoutRow tenantId = some phase) : Judged now view phase := by
  cases op with
  | settle id capName periodStartIso actualAmount =>
    cases h
    exact judged_bookCalendarDelta ..
  | consume id capName periodStartIso units =>
    cases h
    exact judged_bookCalendarDelta ..
  | _ => cases h

/-- A command starts before it has read anything. -/
theorem judged_start (now : ℕ) (view : CapKey → List CapEvent) (op : CapOp) (tenantId : String) :
    Judged now view (op.start tenantId) := by
  cases op with
  | reserveRolling id capName windowDays amount guard => exact fun h => (nomatch h)
  | incrementRolling capName amount => exact fun _ => rfl
  | reserveCalendar id capName periodStartIso amount guard => rfl
  | book capName periodStartIso amount direction guard => rfl
  | _ => trivial

/-- A judged value that is not below what the guard lets pass. -/
theorem belowHardCap_of_le {b : CapBooking} {value usage : ℤ} {e : CapEvent} (h : ¬ b.Rejected value)
    (hle : b.guard = none ∨ usage ≤ value) : BelowHardCap ⟨b, usage, e⟩ := by
  intro cap hcap
  obtain hnone | hle := hle
  · rw [hnone] at hcap
    cases hcap
  · have hbelow : ¬ cap.limit * cap.hard ≤ ((value + b.amount - 1 : ℤ) : ℚ) := fun hex => h ⟨cap, hcap, hex⟩
    refine lt_of_le_of_lt ?_ (not_le.1 hbelow)
    exact_mod_cast (show usage + b.amount - 1 ≤ value + b.amount - 1 by omega)

/-- What is read is not below the usage, as long as no release leaves the window. -/
theorem UsageRead.usage_le {now : ℕ} {es : List CapEvent} {b : CapBooking} {value : ℤ} {readAt : ℕ}
    (h : UsageRead now es b value readAt)
    (hstay : ∀ window ∈ b.window, sumReleased window readAt es ≤ sumReleased window now es) :
    b.guard = none ∨ b.usage now es ≤ value := by
  unfold UsageRead at h
  unfold CapBooking.usage
  cases hwindow : b.window with
  | none =>
    rw [hwindow] at h
    exact h.imp_right le_of_eq
  | some window =>
    rw [hwindow] at h
    have hreleased := hstay window hwindow
    refine .inr ?_
    show ((sumIncremented window now es - sumReleased window now es : ℕ) : ℤ) ≤ value
    omega

/-- A statement leaves a phase whose guard has judged the stream as it is read. -/
theorem judged_runStep {cl : CapClient} (h : HardCapInv s) (hrun : s.RunStep k cl) :
    Judged s.now (s.view k) cl.phase := by
  have hjudged := h.judged k
  cases hrun with
  | givenUp =>
    unfold CapClient.givenUp
    split <;> trivial
  | fetched _ => trivial
  | @unclaimed op _ =>
    cases op <;> trivial
  | claimed _ _ _ hphase => exact judged_afterClaim hphase
  | @settled op phase _ hphase =>
    cases op <;> cases hphase <;> trivial
  | rowless _ hphase => exact judged_withoutRow hphase
  | counterless hp _ _ => trivial
  | @counted b hp hnot =>
    rw [hp] at hjudged
    refine ⟨hnot, le_rfl, fun _ => ?_⟩
    unfold UsageRead
    rw [show b.window = none from hjudged]
    exact .inr rfl
  | windowed hp hwindow => exact ⟨hwindow, le_rfl⟩
  | @unwindowed b hp hwindow =>
    rw [hp] at hjudged
    have hguard := hjudged hwindow
    refine ⟨?_, le_rfl, fun _ => ?_⟩
    · rintro ⟨cap, hcap, -⟩
      rw [hguard] at hcap
      cases hcap
    · unfold UsageRead
      rw [hwindow]
      exact .inl hguard
  | summed hp =>
    rw [hp] at hjudged
    exact ⟨hjudged.1, hjudged.2, fun _ => le_rfl⟩
  | @judged b version incremented usage hp husage hnot =>
    rw [hp] at hjudged
    obtain ⟨hwindow, hle, hread⟩ := hjudged
    obtain ⟨window, hwindow⟩ := Option.isSome_iff_exists.1 hwindow
    refine ⟨hnot, hle, fun hlen => ?_⟩
    have hincremented := hread hlen
    unfold UsageRead
    rw [hwindow] at husage hincremented ⊢
    refine ⟨Int.natCast_nonneg _, ?_⟩
    simp only [Option.getD_some] at husage hincremented
    show (sumIncremented window s.now (s.view k b.key) : ℤ) ≤ usage + sumReleased window s.now (s.view k b.key)
    omega
  | appended _ _ _ => trivial
  | confirmed _ _ _ _ _ | unconfirmed _ | inserted _ _ _ | written _ _ =>
    show Judged _ _ (if _ then _ else _)
    split <;> trivial

/-- What a statement stages is below the threshold. -/
theorem staged_runStep {cl : CapClient} (h : HardCapInv s) (hok : s.ReleasesStay (.run k))
    (hrun : s.RunStep k cl) : ∀ b ∈ cl.staged, BelowHardCap b := by
  cases hrun with
  | givenUp =>
    unfold CapClient.givenUp
    split
    · exact fun _ hb => (nomatch hb)
    · exact h.staged k
  | @appended b value version readAt hp hversion _ =>
    intro x hx
    obtain hx | hx := List.mem_append.1 hx
    · exact h.staged k x hx
    · rw [List.mem_singleton.1 hx]
      have hjudged := h.judged k
      simp only [ReleasesStay] at hok
      rw [hp] at hjudged hok
      exact belowHardCap_of_le hjudged.1 ((hjudged.2.2 hversion).usage_le hok)
  | _ => exact h.staged k

/-- A statement that stages or drops events is not followed by one that has judged the usage. -/
theorem judged_of_staged {cl : CapClient} {now : ℕ} {view : CapKey → List CapEvent} (hrun : s.RunStep k cl) :
    cl.staged = (s.clients k).staged ∨ Judged now view cl.phase := by
  cases hrun with
  | givenUp =>
    unfold CapClient.givenUp
    split
    · exact .inr trivial
    · exact .inl rfl
  | appended _ _ _ => exact .inr trivial
  | _ => exact .inl rfl

theorem view_setClient {cl : CapClient} (h : cl.staged = (s.clients k).staged) :
    (s.setClient k cl).view k = s.view k := by
  funext key
  rw [view, view, setClient_self, h]
  rfl

/-- A client's own step keeps the invariant for the others. -/
theorem HardCapInv.setClient (h : HardCapInv s) {cl : CapClient}
    (hjudged : Judged s.now ((s.setClient k cl).view k) cl.phase) (hstaged : ∀ b ∈ cl.staged, BelowHardCap b) :
    HardCapInv (s.setClient k cl) where
  judged j := by
    by_cases hj : j = k
    · subst hj
      rw [setClient_self]
      exact hjudged
    · rw [setClient_of_ne hj]
      refine (h.judged j).later le_rfl fun key => ⟨[], ?_⟩
      simp only [view, setClient_of_ne hj, List.append_nil]
      rfl
  staged j := by
    by_cases hj : j = k
    · subst hj
      rwa [setClient_self]
    · rw [setClient_of_ne hj]
      exact h.staged j
  booked := h.booked

/-- A commit takes over bookings that are below the threshold. -/
theorem HardCapInv.commit (h : HardCapInv s) (halone : Exclusive s) : HardCapInv (s.commit k) where
  judged j := by
    by_cases hj : j = k
    · subst hj
      simp only [Caps.commit, Function.update_self]
      trivial
    · simp only [Caps.commit, Function.update_of_ne hj]
      refine (h.judged j).later le_rfl fun key => ?_
      show ∃ new, s.view k key ++ stagedOn key ((Function.update s.clients k .closed) j).staged = s.view j key ++ new
      rw [Function.update_of_ne hj, view, view]
      by_cases hstaged : stagedOn key (s.clients j).staged = []
      · exact ⟨stagedOn key (s.clients k).staged, by rw [hstaged, List.append_nil, List.append_nil]⟩
      · have hnone : stagedOn key (s.clients k).staged = [] :=
          not_not.1 fun hother => hj (halone.staged hstaged hother)
        exact ⟨[], by rw [hnone, List.append_nil, List.append_nil]⟩
  staged j := by
    by_cases hj : j = k
    · subst hj
      simp only [Caps.commit, Function.update_self]
      exact fun _ hb => (nomatch hb)
    · simp only [Caps.commit, Function.update_of_ne hj]
      exact h.staged j
  booked b hb := (List.mem_append.1 hb).elim (h.booked b) (h.staged k b)

/-- A step keeps the invariant unless a release has left between the sum and the append. -/
theorem HardCapInv.step (h : HardCapInv s) (halone : Exclusive s) (hok : s.ReleasesStay a)
    (hs : s.step a = some s') : HardCapInv s' := by
  cases CapsStep.of_step hs with
  | @tick ms =>
    refine ⟨fun k => (h.judged k).later (Nat.le_add_right _ _) fun key => ⟨[], ?_⟩, h.staged, h.booked⟩
    rw [List.append_nil]
    rfl
  | sweepTombstone _ _ _ => exact ⟨h.judged, h.staged, h.booked⟩
  | beginOwn _ _ => exact h.setClient (judged_start ..) fun _ hb => (nomatch hb)
  | beginHandler => exact h.setClient trivial fun _ hb => (nomatch hb)
  | @call k op _ _ => exact h.setClient (judged_start ..) (h.staged k)
  | @run k cl hrun =>
    refine h.setClient ?_ (staged_runStep h hok hrun)
    obtain hsame | hjudged := judged_of_staged hrun
    · rw [view_setClient hsame]
      exact judged_runStep h hrun
    · exact hjudged
  | abort => exact h.setClient trivial fun _ hb => (nomatch hb)
  | commit _ => exact h.commit halone

/-! ## Main result -/

/-- Every guarded booking that was committed was below the hard threshold when its event was appended. -/
def HardCapKept (s : Caps n) : Prop := ∀ b ∈ s.booked, BelowHardCap b

instance (s : Caps n) : Decidable s.HardCapKept := inferInstanceAs (Decidable (∀ b ∈ s.booked, _))

/-- In every such run each guarded booking is below the hard threshold. -/
theorem hard_cap_of_run (s : Caps n) (hr : Run step ReleasesStay initial s) : s.HardCapKept := by
  have hinv : Exclusive s ∧ HardCapInv s :=
    hr.invariant (I := fun s => Exclusive s ∧ HardCapInv s) ⟨exclusive_initial, hardCapInv_initial⟩
      fun _ _ _ h hok hs => ⟨h.1.step hs, h.2.step h.1 hok hs⟩
  exact hinv.2.booked

/-- A guarded reservation of a calendar cap and one of a rolling cap, which is then released. -/
def guardedRun : List (CapAct 1) :=
  ownRun 0 (.reserveCalendar "a" "mails" "2026-01-01T00:00:00Z" 5 (some ⟨5, 6 / 5⟩)) 3 ++
    ownRun 0 (.reserveRolling "b" "tokens" 1 5 (some ⟨5, 1⟩)) 5 ++ ownRun 0 (.release "b") 5 ++
    ownRun 0 (.reserveRolling "c" "tokens" 1 5 (some ⟨5, 1⟩)) 5

/-- The usages that `guardedRun` has judged. -/
theorem hard_cap_of_run_guarded : ∃ s : Caps 1, Run step ReleasesStay initial s ∧
    s.booked.map (·.usage) = [0, 0, 5, 0] ∧ s.HardCapKept := by
  obtain ⟨s, hr, hs⟩ := exists_run_of_execOk step (fun s a => decide (s.ReleasesStay a)) (initial : Caps 1) guardedRun
    (fun s => s.booked.map (·.usage) = [0, 0, 5, 0]) (fun _ _ h => of_decide_eq_true h) (by decide +kernel)
    (by decide +kernel)
  exact ⟨s, hr, of_decide_eq_true hs, hard_cap_of_run s hr⟩

/-- The first reservation is dated at 0 in its event and at 10 in its row. It is given back, a second one is
made, and a third one is judged when the first increment has left the window and its release has not; the
release has left as well when the third is appended. -/
def releaseOutlivesIncrement : List (CapAct 1) :=
  let reserve (id : String) := CapOp.reserveRolling id "tokens" 1 5 (some ⟨5, 1⟩)
  [.beginOwn 0 "t" (reserve "a"), .run 0, .run 0, .run 0, .run 0, .tick 10, .run 0, .commit 0, .tick 10] ++
    ownRun 0 (.release "a") 5 ++ [.tick 30] ++ ownRun 0 (reserve "b") 5 ++ [.tick (windowOf 1 - 45)] ++
    [.beginOwn 0 "t" (reserve "c"), .run 0, .run 0, .run 0, .tick 10, .run 0, .run 0, .commit 0]

/-- The third reservation of `releaseOutlivesIncrement` is past the threshold. -/
theorem not_hard_cap : ¬ ∀ s : Caps 1, Run step (fun _ _ => True) initial s → s.HardCapKept := by
  intro h
  obtain ⟨s, hr, hs⟩ := exists_run_of_exec step (initial : Caps 1) releaseOutlivesIncrement
    (fun s => !decide s.HardCapKept) (by decide +kernel)
  simp only [Bool.not_eq_true', decide_eq_false_iff_not] at hs
  exact hs (h s hr)

end Caps

end Kumiko
