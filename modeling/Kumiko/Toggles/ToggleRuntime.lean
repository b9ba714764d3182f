import Kumiko.Library.Run

/-!
# The snapshot of the global feature toggles

`feature-toggles/toggle-runtime.ts`: one process keeps the overrides of all features in memory. A flip commits a
row and a message, and messages come in the order of the commits. A load reads the table and replaces the
snapshot; its buffer, open from the call on, takes the flips that arrive meanwhile, and is never behind the log
on a feature whose messages have all arrived (`Inv.buffers`). A flip that is rolled back is not modelled.
-/

namespace Kumiko

open Transition

/-! ## The runtime -/

/-- `Map<string, boolean>` -/
abbrev ToggleMap := String → Option Bool

/-- A flip, and its message. -/
structure ToggleFlip where
  featureName : String
  enabled : Bool
  deriving DecidableEq

/-- `Map.set` -/
def ToggleMap.set (m : ToggleMap) (flip : ToggleFlip) : ToggleMap :=
  Function.update m flip.featureName (some flip.enabled)

/-- `new Map([...rows, ...pendingFlips])` -/
def ToggleMap.overlay (rows pendingFlips : ToggleMap) : ToggleMap := fun name => (pendingFlips name).or (rows name)

/-- A requested load: its buffer, and its rows once the SELECT has read the table. -/
structure ToggleLoad where
  pendingFlips : ToggleMap
  rows : Option ToggleMap

/-- Reference: `GlobalFeatureToggleRuntime`. The loads stand in the order of their calls; the first one runs. -/
structure ToggleRuntime where
  snapshot : ToggleMap
  loads : List ToggleLoad

namespace ToggleRuntime

/-- Reference: `GlobalFeatureToggleRuntime.apply`. -/
def apply (r : ToggleRuntime) (flip : ToggleFlip) : ToggleRuntime :=
  { snapshot := r.snapshot.set flip
    loads := r.loads.map fun load => { load with pendingFlips := load.pendingFlips.set flip } }

/-- Reference: `GlobalFeatureToggleRuntime.initialize`. -/
def refresh (r : ToggleRuntime) : ToggleRuntime := { r with loads := r.loads ++ [⟨fun _ => none, none⟩] }

/-- The SELECT of the load that runs reads the table. -/
def select (r : ToggleRuntime) (table : ToggleMap) : Option ToggleRuntime :=
  match r.loads with
  | ⟨pendingFlips, none⟩ :: loads => some { r with loads := ⟨pendingFlips, some table⟩ :: loads }
  | _ => none

/-- The rows have arrived. Reference: `GlobalFeatureToggleRuntime.loadSnapshot`. -/
def loadSnapshot (r : ToggleRuntime) : Option ToggleRuntime :=
  match r.loads with
  | ⟨pendingFlips, some rows⟩ :: loads => some ⟨rows.overlay pendingFlips, loads⟩
  | _ => none

/-- The load that runs fails, before or after it has read the table. -/
def failLoad (r : ToggleRuntime) : Option ToggleRuntime :=
  match r.loads with
  | _ :: loads => some { r with loads }
  | [] => none

/-- Reference: `GlobalFeatureToggleRuntime.readOverride`. -/
def readOverride (r : ToggleRuntime) (name : String) : Option Bool := r.snapshot name

end ToggleRuntime

/-! ## The system -/

/-- The committed flips and the table they leave, the messages still under way to the process, the flips
its own handlers have applied and not committed, and the runtime. -/
structure ToggleWorld where
  log : List ToggleFlip
  table : ToggleMap
  messages : List ToggleFlip
  inFlight : List ToggleFlip
  runtime : ToggleRuntime

inductive ToggleAct where
  | applyLocal (flip : ToggleFlip)
  | commit (flip : ToggleFlip)
  | deliver
  | refresh
  | select
  | loadSnapshot
  | failLoad

/-- The value of a feature's last flip. -/
def lastFlip (log : List ToggleFlip) (name : String) : Option Bool :=
  (log.reverse.find? (·.featureName = name)).map (·.enabled)

namespace ToggleWorld

/-- A process starts with an empty snapshot, whatever the table holds. -/
def initial (table : ToggleMap) : ToggleWorld := ⟨[], table, [], [], ⟨fun _ => none, []⟩⟩

def step (s : ToggleWorld) : ToggleAct → Option ToggleWorld
  | .applyLocal flip => some { s with inFlight := flip :: s.inFlight, runtime := s.runtime.apply flip }
  | .commit flip =>
    some { s with
      log := s.log ++ [flip]
      table := s.table.set flip
      messages := s.messages ++ [flip]
      inFlight := s.inFlight.erase flip }
  | .deliver =>
    match s.messages with
    | [] => none
    | flip :: messages => some { s with messages, runtime := s.runtime.apply flip }
  | .refresh => some { s with runtime := s.runtime.refresh }
  | .select => (s.runtime.select s.table).map fun runtime => { s with runtime }
  | .loadSnapshot => s.runtime.loadSnapshot.map fun runtime => { s with runtime }
  | .failLoad => s.runtime.failLoad.map fun runtime => { s with runtime }

end ToggleWorld

/-! ## Flips and maps -/

section

variable {log : List ToggleFlip} {flip : ToggleFlip} {m rows pendingFlips : ToggleMap} {name : String}

theorem lastFlip_append_self : lastFlip (log ++ [flip]) flip.featureName = some flip.enabled := by
  simp [lastFlip]

theorem lastFlip_append_of_ne (h : flip.featureName ≠ name) : lastFlip (log ++ [flip]) name = lastFlip log name := by
  simp [lastFlip, h]

/-- A flip with no later one of its feature is the last. -/
theorem lastFlip_of_suffix {messages : List ToggleFlip} (h : (flip :: messages) <:+ log)
    (hlast : ∀ later ∈ messages, later.featureName ≠ flip.featureName) :
    lastFlip log flip.featureName = some flip.enabled := by
  obtain ⟨before, rfl⟩ := h
  have hnone : messages.reverse.find? (·.featureName = flip.featureName) = none := by
    simpa [List.find?_eq_none] using hlast
  simp [lastFlip, List.find?_append, hnone]

theorem ToggleMap.set_self : m.set flip flip.featureName = some flip.enabled := Function.update_self ..

theorem ToggleMap.set_of_ne (h : flip.featureName ≠ name) : m.set flip name = m name :=
  Function.update_of_ne h.symm _ _

theorem ToggleRuntime.snapshot_apply_self {r : ToggleRuntime} :
    (r.apply flip).snapshot flip.featureName = some flip.enabled :=
  ToggleMap.set_self

/-- A flip leaves the other features. -/
theorem ToggleRuntime.snapshot_apply_of_ne {r : ToggleRuntime} (h : flip.featureName ≠ name) :
    (r.apply flip).snapshot name = r.snapshot name :=
  ToggleMap.set_of_ne h

theorem ToggleMap.overlay_of_some {enabled : Bool} (h : pendingFlips name = some enabled) :
    rows.overlay pendingFlips name = some enabled := by
  rw [overlay, h, Option.some_or]

theorem ToggleMap.overlay_of_none (h : pendingFlips name = none) : rows.overlay pendingFlips name = rows name := by
  rw [overlay, h, Option.none_or]

theorem ToggleMap.overlay_set_of_ne (h : flip.featureName ≠ name) :
    rows.overlay (pendingFlips.set flip) name = rows.overlay pendingFlips name := by
  rw [overlay, overlay, set_of_ne h]

end

namespace ToggleWorld

variable {s s' : ToggleWorld} {a : ToggleAct} {flip : ToggleFlip} {name : String}

/-! ## What a feature's messages leave -/

/-- Every message of the feature has arrived, and no handler of the process has a flip of it under way. -/
def Settled (s : ToggleWorld) (name : String) : Prop :=
  (∀ flip ∈ s.messages, flip.featureName ≠ name) ∧ ∀ flip ∈ s.inFlight, flip.featureName ≠ name

/-- The map has the last value of every flipped feature that is settled. -/
def UpToDate (s : ToggleWorld) (m : ToggleMap) : Prop :=
  ∀ name enabled, s.Settled name → lastFlip s.log name = some enabled → m name = some enabled

/-- What the map says of a settled feature is its last value. -/
def NotBehind (s : ToggleWorld) (m : ToggleMap) : Prop :=
  ∀ name enabled, s.Settled name → m name = some enabled → lastFlip s.log name = some enabled

structure Inv (s : ToggleWorld) : Prop where
  messages : s.messages <:+ s.log
  table : ∀ name enabled, lastFlip s.log name = some enabled → s.table name = some enabled
  snapshot : s.UpToDate s.runtime.snapshot
  buffers : ∀ load ∈ s.runtime.loads, s.NotBehind load.pendingFlips
  rows : ∀ load ∈ s.runtime.loads, ∀ rows, load.rows = some rows → s.UpToDate (rows.overlay load.pendingFlips)

/-- Where fewer features are settled and their flips are the same, what was up to date still is. -/
theorem UpToDate.mono {m : ToggleMap} (h : s.UpToDate m)
    (hs : ∀ name, s'.Settled name → s.Settled name ∧ lastFlip s'.log name = lastFlip s.log name) :
    s'.UpToDate m := by
  intro name enabled hsettled hlast
  obtain ⟨hold, hlog⟩ := hs name hsettled
  exact h name enabled hold (hlog ▸ hlast)

/-- Whatever settles no more features keeps a map up to date. -/
theorem NotBehind.mono {m : ToggleMap} (h : s.NotBehind m)
    (hs : ∀ name, s'.Settled name → s.Settled name ∧ lastFlip s'.log name = lastFlip s.log name) :
    s'.NotBehind m := by
  intro name enabled hsettled hm
  obtain ⟨hold, hlog⟩ := hs name hsettled
  exact hlog ▸ h name enabled hold hm

/-- After a flip is applied, each other feature has the value it had. -/
theorem UpToDate.set {m : ToggleMap} (h : s.UpToDate m) (hlog : s'.log = s.log)
    (hs : ∀ name, s'.Settled name → flip.featureName ≠ name → s.Settled name)
    (hself : s'.Settled flip.featureName → lastFlip s.log flip.featureName = some flip.enabled) :
    s'.UpToDate (m.set flip) := by
  intro name enabled hsettled hlast
  rw [hlog] at hlast
  by_cases hname : flip.featureName = name
  · subst hname
    rw [← hlast, hself hsettled, ToggleMap.set_self]
  · rw [ToggleMap.set_of_ne hname]
    exact h name enabled (hs name hsettled hname) hlast

/-- A flip keeps a map up to date if it is the last one of its feature. -/
theorem NotBehind.set {m : ToggleMap} (h : s.NotBehind m) (hlog : s'.log = s.log)
    (hs : ∀ name, s'.Settled name → flip.featureName ≠ name → s.Settled name)
    (hself : s'.Settled flip.featureName → lastFlip s.log flip.featureName = some flip.enabled) :
    s'.NotBehind (m.set flip) := by
  intro name enabled hsettled hm
  rw [hlog]
  by_cases hname : flip.featureName = name
  · subst hname
    rw [ToggleMap.set_self] at hm
    rw [hself hsettled, hm]
  · rw [ToggleMap.set_of_ne hname] at hm
    exact h name enabled (hs name hsettled hname) hm

/-! ## The steps -/

/-- What a step that applies a flip does to the runtime. -/
theorem Inv.apply (h : s.Inv) (hruntime : s'.runtime = s.runtime.apply flip) (hlog : s'.log = s.log)
    (htable : s'.table = s.table) (hmessages : s'.messages <:+ s.messages)
    (hs : ∀ name, s'.Settled name → flip.featureName ≠ name → s.Settled name)
    (hself : s'.Settled flip.featureName → lastFlip s.log flip.featureName = some flip.enabled) : s'.Inv := by
  refine ⟨hlog ▸ hmessages.trans h.messages, htable ▸ hlog ▸ h.table, ?_, ?_, ?_⟩
  · rw [hruntime]
    exact h.snapshot.set hlog hs hself
  · intro load hload
    rw [hruntime] at hload
    obtain ⟨old, hold, rfl⟩ := List.mem_map.1 hload
    exact (h.buffers old hold).set hlog hs hself
  · intro load hload rows hrows
    rw [hruntime] at hload
    obtain ⟨old, hold, rfl⟩ := List.mem_map.1 hload
    have hset := (h.rows old hold rows hrows).set hlog hs hself
    intro name enabled hsettled hlast
    by_cases hname : flip.featureName = name
    · subst hname
      rw [hlog, hself hsettled] at hlast
      exact (ToggleMap.overlay_of_some ToggleMap.set_self).trans hlast
    · rw [ToggleMap.overlay_set_of_ne hname]
      have hvalue := hset name enabled hsettled hlast
      rwa [ToggleMap.set_of_ne hname] at hvalue

/-- A flip that commits waits for its message. -/
theorem Inv.commit (h : s.Inv) : Inv { s with
    log := s.log ++ [flip]
    table := s.table.set flip
    messages := s.messages ++ [flip]
    inFlight := s.inFlight.erase flip } := by
  have hs : ∀ name, Settled { s with
      log := s.log ++ [flip], table := s.table.set flip, messages := s.messages ++ [flip]
      inFlight := s.inFlight.erase flip } name →
      s.Settled name ∧ lastFlip (s.log ++ [flip]) name = lastFlip s.log name := by
    intro name ⟨hmessages, hinFlight⟩
    have hne : flip.featureName ≠ name := hmessages flip (List.mem_append_right _ List.mem_cons_self)
    refine ⟨⟨fun m hm => hmessages m (List.mem_append_left _ hm), fun m hm => ?_⟩, lastFlip_append_of_ne hne⟩
    by_cases heq : m = flip
    · exact heq ▸ hne
    · exact hinFlight m ((List.mem_erase_of_ne heq).2 hm)
  refine ⟨?_, ?_, h.snapshot.mono hs, fun load hload => (h.buffers load hload).mono hs,
    fun load hload rows hrows => (h.rows load hload rows hrows).mono hs⟩
  · obtain ⟨before, hbefore⟩ := h.messages
    exact ⟨before, by rw [← List.append_assoc, hbefore]⟩
  · intro name enabled hlast
    by_cases hname : flip.featureName = name
    · subst hname
      rw [lastFlip_append_self] at hlast
      rw [← hlast]
      exact ToggleMap.set_self
    · rw [lastFlip_append_of_ne hname] at hlast
      exact (ToggleMap.set_of_ne hname).trans (h.table name enabled hlast)

/-- A message brings the last flip of its feature, or another is under way. -/
theorem Inv.deliver {messages : List ToggleFlip} (h : s.Inv) (hm : s.messages = flip :: messages) :
    Inv { s with messages, runtime := s.runtime.apply flip } := by
  refine h.apply rfl rfl rfl (hm ▸ List.suffix_cons flip messages) ?_ ?_
  · intro name ⟨hmessages, hinFlight⟩ hne
    refine ⟨fun m hmem => ?_, hinFlight⟩
    rw [hm] at hmem
    rcases List.mem_cons.1 hmem with rfl | hmem
    · exact hne
    · exact hmessages m hmem
  · intro hsettled
    exact lastFlip_of_suffix (hm ▸ h.messages) hsettled.1

/-- The process that flips is ahead of the message. -/
theorem Inv.applyLocal (h : s.Inv) :
    Inv { s with inFlight := flip :: s.inFlight, runtime := s.runtime.apply flip } := by
  refine h.apply rfl rfl rfl List.suffix_rfl ?_ ?_
  · intro name ⟨hmessages, hinFlight⟩ _
    exact ⟨hmessages, fun m hm => hinFlight m (List.mem_cons_of_mem _ hm)⟩
  · intro hsettled
    exact absurd rfl (hsettled.2 flip List.mem_cons_self)

/-- The flips that a buffer says nothing about are in the table, the others are in the buffer. -/
theorem Inv.upToDate_overlay (h : s.Inv) {pendingFlips : ToggleMap} (hbuffer : s.NotBehind pendingFlips) :
    s.UpToDate (s.table.overlay pendingFlips) := by
  intro name enabled hsettled hlast
  cases hp : pendingFlips name with
  | none => exact (ToggleMap.overlay_of_none hp).trans (h.table name enabled hlast)
  | some buffered =>
    rw [ToggleMap.overlay_of_some hp, ← hbuffer name buffered hsettled hp, hlast]

/-- Every step keeps the snapshot up to date on settled features. -/
theorem Inv.step (h : s.Inv) (hs : s.step a = some s') : s'.Inv := by
  cases a with
  | applyLocal flip =>
    cases hs
    exact h.applyLocal
  | commit flip =>
    cases hs
    exact h.commit
  | deliver =>
    simp only [ToggleWorld.step] at hs
    split at hs
    · cases hs
    · next flip messages hm =>
      cases hs
      exact h.deliver hm
  | refresh =>
    cases hs
    refine ⟨h.messages, h.table, h.snapshot, fun load hload => ?_, fun load hload rows hrows => ?_⟩
    · rcases List.mem_append.1 hload with hold | hnew
      · exact h.buffers load hold
      · rw [List.mem_singleton.1 hnew]
        intro name enabled _ hnone
        cases hnone
    · rcases List.mem_append.1 hload with hold | hnew
      · exact h.rows load hold rows hrows
      · rw [List.mem_singleton.1 hnew] at hrows
        cases hrows
  | select =>
    obtain ⟨runtime, hselect, rfl⟩ := Option.map_eq_some_iff.1 hs
    unfold ToggleRuntime.select at hselect
    split at hselect
    · next pendingFlips loads hloads =>
      cases hselect
      have hbuffer : s.NotBehind pendingFlips := h.buffers _ (hloads ▸ List.mem_cons_self)
      refine ⟨h.messages, h.table, h.snapshot, fun load hload => ?_, fun load hload rows hrows => ?_⟩
      · rcases List.mem_cons.1 hload with rfl | hload
        · exact hbuffer
        · exact h.buffers load (hloads ▸ List.mem_cons_of_mem _ hload)
      · rcases List.mem_cons.1 hload with rfl | hload
        · cases hrows
          exact h.upToDate_overlay hbuffer
        · exact h.rows load (hloads ▸ List.mem_cons_of_mem _ hload) rows hrows
    · cases hselect
  | loadSnapshot =>
    obtain ⟨runtime, hload, rfl⟩ := Option.map_eq_some_iff.1 hs
    unfold ToggleRuntime.loadSnapshot at hload
    split at hload
    · next pendingFlips rows loads hloads =>
      cases hload
      have htail : ∀ load ∈ loads, load ∈ s.runtime.loads := fun load hmem => hloads ▸ List.mem_cons_of_mem _ hmem
      exact ⟨h.messages, h.table, h.rows ⟨pendingFlips, some rows⟩ (hloads ▸ List.mem_cons_self) rows rfl,
        fun load hmem => h.buffers load (htail load hmem), fun load hmem => h.rows load (htail load hmem)⟩
    · cases hload
  | failLoad =>
    obtain ⟨runtime, hfail, rfl⟩ := Option.map_eq_some_iff.1 hs
    unfold ToggleRuntime.failLoad at hfail
    split at hfail
    · next loads hloads =>
      cases hfail
      have htail : ∀ load ∈ loads, load ∈ s.runtime.loads := fun load hmem => hloads ▸ List.mem_cons_of_mem _ hmem
      exact ⟨h.messages, h.table, h.snapshot, fun load hmem => h.buffers load (htail load hmem),
        fun load hmem => h.rows load (htail load hmem)⟩
    · cases hfail

/-- Nothing was flipped. -/
theorem inv_initial (table : ToggleMap) : (initial table).Inv where
  messages := List.suffix_rfl
  table _ _ h := nomatch h
  snapshot _ _ _ h := nomatch h
  buffers _ h := nomatch h
  rows _ h := nomatch h

/-! ## Convergence -/

/-- Once every flip has committed and every message has arrived, the snapshot has the last committed value of every
flipped feature, whatever loads have ended or still run. -/
theorem snapshot_converges {table : ToggleMap} (hr : Run step (fun _ _ => True) (initial table) s)
    (hcommitted : s.inFlight = []) (hdelivered : s.messages = []) :
    ∀ flip ∈ s.log, s.runtime.readOverride flip.featureName = lastFlip s.log flip.featureName := by
  have hinv : s.Inv := hr.invariant (inv_initial table) fun _ _ _ hi _ hs => hi.step hs
  intro flip hflip
  have hsettled : s.Settled flip.featureName := by
    rw [Settled, hcommitted, hdelivered]
    exact ⟨nofun, nofun⟩
  obtain ⟨last, hlast⟩ : ∃ last, lastFlip s.log flip.featureName = some last := by
    have hsome : (s.log.reverse.find? (·.featureName = flip.featureName)).isSome := by
      rw [List.find?_isSome]
      exact ⟨flip, List.mem_reverse.2 hflip, decide_eq_true rfl⟩
    obtain ⟨found, hfound⟩ := Option.isSome_iff_exists.1 hsome
    exact ⟨found.enabled, by rw [lastFlip, hfound, Option.map_some]⟩
  rw [hlast]
  exact hinv.snapshot _ _ hsettled hlast

/-- A load reads between two flips of a feature and ends when the message of the first is applied; the next one
fails. -/
theorem snapshot_converges_twoFlips : ∃ s : ToggleWorld,
    s.log = [⟨"billing", true⟩, ⟨"billing", false⟩] ∧ s.runtime.readOverride "billing" = some false := by
  obtain ⟨s, hr, hs⟩ := exists_run_of_exec step (initial fun _ => none)
    [.refresh, .applyLocal ⟨"billing", true⟩, .refresh, .commit ⟨"billing", true⟩, .select, .deliver,
      .commit ⟨"billing", false⟩, .loadSnapshot, .select, .deliver, .failLoad]
    (fun s => s.log = [⟨"billing", true⟩, ⟨"billing", false⟩] ∧ s.inFlight = [] ∧ s.messages = [])
    (by decide +kernel)
  obtain ⟨hlog, hcommitted, hdelivered⟩ := of_decide_eq_true hs
  have hlast := snapshot_converges hr hcommitted hdelivered ⟨"billing", false⟩ (by rw [hlog]; simp)
  exact ⟨s, hlog, by rw [hlast, hlog]; rfl⟩

/-! ## Features that are not flipped -/

/-- The act flips no feature of that name. -/
def Leaves (name : String) (_ : ToggleWorld) : ToggleAct → Prop
  | .applyLocal flip | .commit flip => flip.featureName ≠ name
  | _ => True

/-- Of the feature there is a row and nothing else. -/
structure Unflipped (name : String) (row : Option Bool) (s : ToggleWorld) : Prop where
  table : s.table name = row
  messages : ∀ flip ∈ s.messages, flip.featureName ≠ name
  loads : ∀ load ∈ s.runtime.loads, load.pendingFlips name = none ∧ ∀ rows, load.rows = some rows → rows name = row

/-- A flip of another feature stays out of the buffers. -/
theorem Unflipped.apply {row : Option Bool} (h : s.Unflipped name row) (hne : flip.featureName ≠ name) :
    ∀ load ∈ (s.runtime.apply flip).loads,
      load.pendingFlips name = none ∧ ∀ rows, load.rows = some rows → rows name = row := by
  intro load hload
  obtain ⟨old, hold, rfl⟩ := List.mem_map.1 hload
  exact ⟨(ToggleMap.set_of_ne hne).trans (h.loads old hold).1, (h.loads old hold).2⟩

/-- A step that leaves the feature alone keeps its row for the load to bring in. -/
theorem Unflipped.step {row : Option Bool} (h : s.Unflipped name row) (hok : Leaves name s a)
    (hs : s.step a = some s') : s'.Unflipped name row := by
  cases a with
  | applyLocal flip =>
    cases hs
    exact ⟨h.table, h.messages, h.apply hok⟩
  | commit flip =>
    cases hs
    refine ⟨(ToggleMap.set_of_ne hok).trans h.table, fun m hm => ?_, h.loads⟩
    rcases List.mem_append.1 hm with hm | hm
    · exact h.messages m hm
    · exact List.mem_singleton.1 hm ▸ hok
  | deliver =>
    simp only [ToggleWorld.step] at hs
    split at hs
    · cases hs
    · next flip messages hm =>
      cases hs
      exact ⟨h.table, fun m hmem => h.messages m (hm ▸ List.mem_cons_of_mem _ hmem),
        h.apply (h.messages flip (hm ▸ List.mem_cons_self))⟩
  | refresh =>
    cases hs
    refine ⟨h.table, h.messages, fun load hload => ?_⟩
    rcases List.mem_append.1 hload with hold | hnew
    · exact h.loads load hold
    · rw [List.mem_singleton.1 hnew]
      exact ⟨rfl, nofun⟩
  | select =>
    obtain ⟨runtime, hselect, rfl⟩ := Option.map_eq_some_iff.1 hs
    unfold ToggleRuntime.select at hselect
    split at hselect
    · next pendingFlips loads hloads =>
      cases hselect
      refine ⟨h.table, h.messages, fun load hload => ?_⟩
      rcases List.mem_cons.1 hload with rfl | hload
      · exact ⟨(h.loads ⟨pendingFlips, none⟩ (hloads ▸ List.mem_cons_self)).1,
          fun rows hrows => Option.some.inj hrows ▸ h.table⟩
      · exact h.loads load (hloads ▸ List.mem_cons_of_mem _ hload)
    · cases hselect
  | loadSnapshot | failLoad =>
    obtain ⟨runtime, hend, rfl⟩ := Option.map_eq_some_iff.1 hs
    first | unfold ToggleRuntime.loadSnapshot at hend | unfold ToggleRuntime.failLoad at hend
    split at hend
    · next hloads =>
      cases hend
      exact ⟨h.table, h.messages, fun load hmem => h.loads load (hloads ▸ List.mem_cons_of_mem _ hmem)⟩
    · cases hend

/-- A load brings in the row of every feature that is not flipped in the run. -/
theorem loaded_of_run {table : ToggleMap} (hr : Run step (Leaves name) (initial table) s)
    (hs : s.step .loadSnapshot = some s') : s'.runtime.readOverride name = table name := by
  have hinv : s.Unflipped name (table name) :=
    hr.invariant ⟨rfl, nofun, nofun⟩ fun _ _ _ hi hok hs => hi.step hok hs
  obtain ⟨runtime, hload, rfl⟩ := Option.map_eq_some_iff.1 hs
  unfold ToggleRuntime.loadSnapshot at hload
  split at hload
  · next pendingFlips rows loads hloads =>
    cases hload
    obtain ⟨hnone, hrows⟩ := hinv.loads _ (hloads ▸ List.mem_cons_self)
    exact (ToggleMap.overlay_of_none hnone).trans (hrows rows rfl)
  · cases hload

end ToggleWorld

end Kumiko
