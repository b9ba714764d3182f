import Kumiko.Library.ClosedSubsets
import Kumiko.Db.ExecutorVerbs
import Kumiko.Toggles.ToggleRuntime

/-!
# The features of a tenant

`engine/effective-features.ts` and `feature-toggles/compose-tier-resolver.ts`. The global cascade is a search
along the requirements with a memo; the composed resolver unites the tier's grants with the cascade's and drops
features until none misses a requirement. Both end at the greatest closed subset of what they start from
(`computeEffectiveFeatures_eq`, `cascade_eq`).
-/

namespace Kumiko

open ClosedSubsets

/-! ## The registry -/

/-- Reference: `FeatureDefinition`. -/
structure FeatureDefinition where
  name : String
  requires : List String
  toggleableDefault : Option Bool
  deriving DecidableEq

/-- Reference: `isToggleableFeature`. -/
def isToggleableFeature (feature : FeatureDefinition) : Bool := feature.toggleableDefault.isSome

def featureNamed (features : List FeatureDefinition) (name : String) : Option FeatureDefinition :=
  features.find? (·.name = name)

/-- What the registered feature of a name requires. -/
def requiresOf (features : List FeatureDefinition) (name : String) : Set String :=
  {dep | ∃ feature, featureNamed features name = some feature ∧ dep ∈ feature.requires}

/-- The registered features, under names of their own. The boot refuses a feature that requires itself, in any number
of steps. -/
structure FeatureRegistry where
  features : List FeatureDefinition
  nodup : (features.map (·.name)).Nodup
  acyclic : ∀ name, ¬ Relation.TransGen (fun x y => y ∈ requiresOf features x) name name

namespace FeatureRegistry

/-- Reference: `Registry.getFeature`. -/
def getFeature (registry : FeatureRegistry) (name : String) : Option FeatureDefinition :=
  featureNamed registry.features name

def requires (registry : FeatureRegistry) (name : String) : Set String := requiresOf registry.features name

/-- The names of the registered features. -/
def registered (registry : FeatureRegistry) : Set String := {name | (registry.getFeature name).isSome}

/-- A registered feature with `r.toggleable()`. -/
def isToggleable (registry : FeatureRegistry) (name : String) : Bool :=
  (registry.getFeature name).any isToggleableFeature

end FeatureRegistry

/-! ## The global cascade -/

/-- Before the cascade; `none` where no feature has the name. -/
def rawEnabled (registry : FeatureRegistry) (readToggle : ToggleMap) (name : String) : Option Bool :=
  (registry.getFeature name).map fun feature =>
    match feature.toggleableDefault with
    | none => true
    | some toggleableDefault => (readToggle name).getD toggleableDefault

/-- What `resolve` has found out: `Map<string, boolean>`. -/
abbrev ResolveMemo := List (String × Bool)

def ResolveMemo.get (memo : ResolveMemo) (name : String) : Option Bool :=
  (memo.find? (·.1 = name)).map (·.2)

/-- The loop over the requirements of a feature, up to the first that is off. -/
def resolveAll (resolve : String → ResolveMemo → Bool × ResolveMemo) :
    List String → ResolveMemo → Bool × ResolveMemo
  | [], memo => (true, memo)
  | dep :: deps, memo =>
    match resolve dep memo with
    | (false, memo) => (false, memo)
    | (true, memo) => resolveAll resolve deps memo

/-- Reference: `resolve` of `computeEffectiveFeatures`. -/
def resolve (registry : FeatureRegistry) (readToggle : ToggleMap) :
    ℕ → String → ResolveMemo → Bool × ResolveMemo
  | 0, _, memo => (false, memo)
  | fuel + 1, name, memo =>
    match memo.get name with
    | some cached => (cached, memo)
    | none =>
      if (rawEnabled registry readToggle name).getD true = false then (false, memo ++ [(name, false)])
      else
        match registry.getFeature name with
        | none => (false, memo ++ [(name, false)])
        | some feature =>
          let (enabled, memo) := resolveAll (resolve registry readToggle fuel) feature.requires memo
          (enabled, memo ++ [(name, enabled)])

/-- `for (const feature of registry.features.values()) resolve(feature.name)` -/
def resolveFeatures (registry : FeatureRegistry) (readToggle : ToggleMap) :
    List FeatureDefinition → ResolveMemo → ResolveMemo
  | [], memo => memo
  | feature :: features, memo =>
    resolveFeatures registry readToggle features
      (resolve registry readToggle (registry.features.length + 1) feature.name memo).2

/-- Reference: `computeEffectiveFeatures`. -/
def computeEffectiveFeatures (registry : FeatureRegistry) (readToggle : ToggleMap) : List String :=
  ((resolveFeatures registry readToggle registry.features []).filter (·.2)).map (·.1)

/-- Reference: `GlobalFeatureToggleRuntime.effectiveFeatures`. -/
def ToggleRuntime.effectiveFeatures (r : ToggleRuntime) (registry : FeatureRegistry) : List String :=
  computeEffectiveFeatures registry r.snapshot

/-! ## The composed resolver -/

/-- `Set.add` -/
def addName (names : List String) (name : String) : List String := if name ∈ names then names else names ++ [name]

/-- The feature is not registered, or misses a requirement. -/
def mustDrop (registry : FeatureRegistry) (result : List String) (name : String) : Bool :=
  match registry.getFeature name with
  | none => true
  | some feature => feature.requires.any (· ∉ result)

/-- One pass over the names as they stood at its beginning, and whether it has dropped one. -/
def cascadePass (registry : FeatureRegistry) : List String → List String → List String × Bool
  | [], result => (result, false)
  | name :: names, result =>
    if mustDrop registry result name then ((cascadePass registry names (result.erase name)).1, true)
    else cascadePass registry names result

/-- The loop over the passes. -/
def cascade (registry : FeatureRegistry) : ℕ → List String → List String
  | 0, result => result
  | fuel + 1, result =>
    match cascadePass registry result result with
    | (result, true) => cascade registry fuel result
    | (result, false) => result

/-- The throw of the guard: the tier resolver knows no `SYSTEM_TENANT_ID`. -/
inductive ComposeError where
  | emptySystemTenantUnion

/-- The toggleable features that some tier grants. -/
def tierManagedOf (tierResolver : String → List String) (registry : FeatureRegistry) :
    Except ComposeError (List String) :=
  match tierResolver systemTenantId with
  | [] => .error .emptySystemTenantUnion
  | managed => .ok (managed.filter registry.isToggleable)

/-- The memo of the composed resolver holds what its first call has found. -/
structure TierManaged (tierResolver : String → List String) (registry : FeatureRegistry) where
  names : List String
  eq : tierManagedOf tierResolver registry = .ok names

/-- What the tier grants, less the toggleable features that are overridden. -/
def narrowedTier (tierResolver : String → List String) (r : ToggleRuntime) (registry : FeatureRegistry)
    (tenantId : String) : List String :=
  (tierResolver tenantId).filter fun name => !registry.isToggleable name || r.readOverride name ≠ some false

/-- Reference: `composed` of `composeTierResolverWithGlobalToggles`. -/
def composeTierResolverWithGlobalToggles (tierResolver : String → List String) (r : ToggleRuntime)
    (registry : FeatureRegistry) (tierManaged : Option (TierManaged tierResolver registry)) (tenantId : String) :
    Except ComposeError (List String × TierManaged tierResolver registry) :=
  let compose (managed : TierManaged tierResolver registry) :=
    let granted := (narrowedTier tierResolver r registry tenantId).foldl addName []
    let result := ((r.effectiveFeatures registry).filter (· ∉ managed.names)).foldl addName granted
    (cascade registry (result.length + 1) result, managed)
  match tierManaged with
  | some managed => .ok (compose managed)
  | none =>
    match h : tierManagedOf tierResolver registry with
    | .error error => .error error
    | .ok names => .ok (compose ⟨names, h⟩)

/-! ## The global cascade is closed -/

/-- The features that are on before the cascade. -/
def enabledFeatures (registry : FeatureRegistry) (readToggle : ToggleMap) : Set String :=
  {name | rawEnabled registry readToggle name = some true}

section

variable {registry : FeatureRegistry} {readToggle : ToggleMap} {name : String} {feature : FeatureDefinition}
  {memo : ResolveMemo} {enabled : Bool}

theorem mem_requires (h : registry.getFeature name = some feature) {dep : String} :
    dep ∈ registry.requires name ↔ dep ∈ feature.requires := by
  constructor
  · rintro ⟨found, hfound, hdep⟩
    have hsame : some feature = some found := h.symm.trans hfound
    cases hsame
    exact hdep
  · exact fun hdep => ⟨feature, h, hdep⟩

theorem getFeature_of_rawEnabled (h : rawEnabled registry readToggle name = some enabled) :
    ∃ feature, registry.getFeature name = some feature := by
  obtain ⟨feature, hfeature, -⟩ := Option.map_eq_some_iff.1 h
  exact ⟨feature, hfeature⟩

theorem rawEnabled_of_mem (h : name ∈ greatest registry.requires (enabledFeatures registry readToggle)) :
    rawEnabled registry readToggle name = some true := by
  have hmem : name ∈ enabledFeatures registry readToggle := greatest_subset h
  exact hmem

theorem name_of_getFeature (h : registry.getFeature name = some feature) :
    feature ∈ registry.features ∧ feature.name = name := by
  have hname := List.find?_some h
  exact ⟨List.mem_of_find?_eq_some h, of_decide_eq_true hname⟩

/-- A bound on the steps of the search. -/
noncomputable def searchRank (registry : FeatureRegistry) (name : String) : ℕ :=
  rank registry.requires (registry.features.map (·.name)).toFinset name

theorem searchRank_le : searchRank registry name ≤ registry.features.length := by
  refine (rank_le _ _).trans ((List.toFinset_card_le _).trans ?_)
  rw [List.length_map]

/-- A registered requirement has a smaller rank. -/
theorem searchRank_lt {dep : String} (hdep : dep ∈ registry.requires name) {found : FeatureDefinition}
    (hfound : registry.getFeature dep = some found) : searchRank registry dep < searchRank registry name := by
  obtain ⟨hmem, hname⟩ := name_of_getFeature hfound
  exact rank_lt (List.mem_toFinset.2 (List.mem_map.2 ⟨found, hmem, hname⟩)) hdep (registry.acyclic dep)

/-- Every entry of the memo is right. -/
def MemoRight (registry : FeatureRegistry) (readToggle : ToggleMap) (memo : ResolveMemo) : Prop :=
  ∀ entry ∈ memo, entry.2 = true ↔ entry.1 ∈ greatest registry.requires (enabledFeatures registry readToggle)

/-- What a search for some names leaves: its answer and the memo are right, and the memo keeps its entries. -/
structure Resolved (registry : FeatureRegistry) (readToggle : ToggleMap) (memo : ResolveMemo) (names : List String)
    (found : Bool × ResolveMemo) : Prop where
  answer : found.1 = true ↔ ∀ name ∈ names, name ∈ greatest registry.requires (enabledFeatures registry readToggle)
  right : MemoRight registry readToggle found.2
  keeps : memo ⊆ found.2

theorem MemoRight.append (h : MemoRight registry readToggle memo)
    (hentry : enabled = true ↔ name ∈ greatest registry.requires (enabledFeatures registry readToggle)) :
    MemoRight registry readToggle (memo ++ [(name, enabled)]) := by
  intro entry hmem
  rcases List.mem_append.1 hmem with hold | hnew
  · exact h entry hold
  · rw [List.mem_singleton.1 hnew]
    exact hentry

theorem mem_of_get (h : memo.get name = some enabled) : (name, enabled) ∈ memo := by
  obtain ⟨⟨found, value⟩, hfound, rfl⟩ := Option.map_eq_some_iff.1 h
  have hname := List.find?_some hfound
  cases of_decide_eq_true hname
  exact List.mem_of_find?_eq_some hfound

/-- An answer that is written to the memo. -/
theorem Resolved.of_answer (h : MemoRight registry readToggle memo) {memo' : ResolveMemo} (hkeeps : memo' ⊆ memo)
    (hentry : enabled = true ↔ name ∈ greatest registry.requires (enabledFeatures registry readToggle)) :
    Resolved registry readToggle memo' [name] (enabled, memo ++ [(name, enabled)]) where
  answer := by simpa using hentry
  right := h.append hentry
  keeps := List.Subset.trans hkeeps (List.subset_append_left _ _)

theorem resolved_resolveAll {resolve : String → ResolveMemo → Bool × ResolveMemo} {deps : List String}
    (hresolve : ∀ dep ∈ deps, ∀ memo, MemoRight registry readToggle memo →
      Resolved registry readToggle memo [dep] (resolve dep memo))
    (h : MemoRight registry readToggle memo) :
    Resolved registry readToggle memo deps (resolveAll resolve deps memo) := by
  induction deps generalizing memo with
  | nil => exact ⟨by simp [resolveAll], h, List.Subset.refl _⟩
  | cons dep deps ih =>
    have hdep := hresolve dep List.mem_cons_self memo h
    rw [resolveAll]
    split
    · next memo' hoff =>
      rw [hoff] at hdep
      refine ⟨⟨by simp, fun hall => ?_⟩, hdep.right, hdep.keeps⟩
      exact absurd (hdep.answer.2 (by simpa using hall dep List.mem_cons_self)) Bool.false_ne_true
    · next memo' hon =>
      rw [hon] at hdep
      have hrest := ih (fun dep hmem => hresolve dep (List.mem_cons_of_mem _ hmem)) hdep.right
      have hmember := hdep.answer.1 rfl dep List.mem_cons_self
      refine ⟨hrest.answer.trans ?_, hrest.right, List.Subset.trans hdep.keeps hrest.keeps⟩
      rw [List.forall_mem_cons]
      exact ⟨fun hall => ⟨hmember, hall⟩, And.right⟩

/-- The search, with fuel for the ranks below it. -/
theorem resolved_resolve {fuel : ℕ} (hfuel : searchRank registry name < fuel ∨ registry.getFeature name = none)
    (h : MemoRight registry readToggle memo) :
    Resolved registry readToggle memo [name] (resolve registry readToggle fuel name memo) := by
  induction fuel generalizing name memo with
  | zero =>
    have hnone : registry.getFeature name = none := hfuel.resolve_left (Nat.not_lt_zero _)
    refine ⟨⟨by rintro ⟨⟩, fun hall => ?_⟩, h, List.Subset.refl _⟩
    have henabled := rawEnabled_of_mem (hall name List.mem_cons_self)
    rw [rawEnabled, hnone] at henabled
    cases henabled
  | succ fuel ih =>
    rw [resolve]
    split
    · next cached hcached =>
      exact ⟨by simpa using h _ (mem_of_get hcached), h, List.Subset.refl _⟩
    split
    · next hoff =>
      refine .of_answer h (List.Subset.refl _) ⟨by simp, fun hmem => ?_⟩
      have henabled := rawEnabled_of_mem hmem
      rw [henabled] at hoff
      cases hoff
    next hon =>
    split
    · next hnone =>
      refine .of_answer h (List.Subset.refl _) ⟨by simp, fun hmem => ?_⟩
      have henabled := rawEnabled_of_mem hmem
      rw [rawEnabled, hnone] at henabled
      cases henabled
    · next feature hfeature =>
      have henabled : rawEnabled registry readToggle name = some true := by
        rw [rawEnabled, hfeature, Option.map_some] at hon ⊢
        simpa using hon
      have hdeps : Resolved registry readToggle memo feature.requires
          (resolveAll (resolve registry readToggle fuel) feature.requires memo) := by
        refine resolved_resolveAll (fun dep hdep memo hmemo => ih ?_ hmemo) h
        cases hfound : registry.getFeature dep with
        | none => exact .inr rfl
        | some found =>
          have hlt := searchRank_lt ((mem_requires hfeature).2 hdep) hfound
          have hname : searchRank registry name < fuel + 1 := hfuel.resolve_right (by simp [hfeature])
          exact .inl (by omega)
      refine .of_answer hdeps.right hdeps.keeps (hdeps.answer.trans ?_)
      rw [mem_greatest_iff]
      exact ⟨fun hall => ⟨henabled, fun dep hdep => hall dep ((mem_requires hfeature).1 hdep)⟩,
        fun hmem dep hdep => hmem.2 ((mem_requires hfeature).2 hdep)⟩

/-- A search with fuel leaves an entry. -/
theorem exists_entry_resolve (fuel : ℕ) (name : String) (memo : ResolveMemo) :
    ∃ enabled, (name, enabled) ∈ (resolve registry readToggle (fuel + 1) name memo).2 := by
  rw [resolve]
  split
  · next cached hcached => exact ⟨cached, mem_of_get hcached⟩
  split
  · exact ⟨false, by simp⟩
  split
  · exact ⟨false, by simp⟩
  · exact ⟨_, List.mem_append_right _ List.mem_cons_self⟩

theorem resolved_resolveFeatures {features : List FeatureDefinition} (h : MemoRight registry readToggle memo) :
    MemoRight registry readToggle (resolveFeatures registry readToggle features memo) ∧
      memo ⊆ resolveFeatures registry readToggle features memo ∧
      ∀ feature ∈ features, ∃ enabled,
        (feature.name, enabled) ∈ resolveFeatures registry readToggle features memo := by
  induction features generalizing memo with
  | nil => exact ⟨h, List.Subset.refl _, nofun⟩
  | cons feature features ih =>
    have hfuel : searchRank registry feature.name < registry.features.length + 1 :=
      Nat.lt_succ_of_le searchRank_le
    have hone := resolved_resolve (.inl hfuel) h
    obtain ⟨hright, hkeeps, hall⟩ := ih hone.right
    refine ⟨hright, List.Subset.trans hone.keeps hkeeps, ?_⟩
    intro found hfound
    rcases List.mem_cons.1 hfound with rfl | hfound
    · obtain ⟨enabled, hentry⟩ := exists_entry_resolve registry.features.length found.name memo
      exact ⟨enabled, hkeeps hentry⟩
    · exact hall found hfound

/-- The global cascade is the greatest closed set of features that are on. -/
theorem computeEffectiveFeatures_eq :
    {name | name ∈ computeEffectiveFeatures registry readToggle} =
      greatest registry.requires (enabledFeatures registry readToggle) := by
  have hempty : MemoRight registry readToggle [] := nofun
  obtain ⟨hright, -, hall⟩ := resolved_resolveFeatures hempty
  ext name
  constructor
  · intro hname
    obtain ⟨entry, hentry, rfl⟩ := List.mem_map.1 hname
    rw [List.mem_filter] at hentry
    exact (hright entry hentry.1).1 hentry.2
  · intro hname
    obtain ⟨feature, hfeature⟩ := getFeature_of_rawEnabled (rawEnabled_of_mem hname)
    obtain ⟨hmem, rfl⟩ := name_of_getFeature hfeature
    obtain ⟨enabled, hentry⟩ := hall feature hmem
    have hon : enabled = true := (hright _ hentry).2 hname
    exact List.mem_map.2 ⟨_, List.mem_filter.2 ⟨hentry, hon⟩, rfl⟩

end

/-! ## The loop over the passes -/

section

variable {registry : FeatureRegistry} {names result result' : List String} {name : String}

/-- A member of a closed set of registered features is kept as long as the others are. -/
theorem mustDrop_eq_false {t : Set String} (hregistered : t ⊆ registry.registered)
    (hclosed : Closed registry.requires t) (ht : ∀ n ∈ t, n ∈ result) (hname : name ∈ t) :
    mustDrop registry result name = false := by
  obtain ⟨feature, hfeature⟩ := Option.isSome_iff_exists.1 (hregistered hname)
  rw [mustDrop, hfeature]
  simp only [List.any_eq_false, decide_eq_true_eq, not_not]
  exact fun dep hdep => ht dep (hclosed name hname ((mem_requires hfeature).2 hdep))

theorem requires_subset_of_mustDrop (h : mustDrop registry result name = false) :
    name ∈ registry.registered ∧ ∀ dep ∈ registry.requires name, dep ∈ result := by
  unfold mustDrop at h
  split at h
  · cases h
  · next feature hfeature =>
    refine ⟨Option.isSome_iff_exists.2 ⟨feature, hfeature⟩, fun dep hdep => ?_⟩
    simp only [List.any_eq_false, decide_eq_true_eq, not_not] at h
    exact h dep ((mem_requires hfeature).1 hdep)

/-- What a pass leaves of the result: every closed set in it, and all of it if nothing was dropped. -/
structure Passed (registry : FeatureRegistry) (names result : List String) (passed : List String × Bool) : Prop where
  sublist : passed.1.Sublist result
  keeps : ∀ t : Set String, t ⊆ registry.registered → Closed registry.requires t → (∀ n ∈ t, n ∈ result) →
    ∀ n ∈ t, n ∈ passed.1
  dropped : passed.2 = true → passed.1.length < result.length
  unchanged : passed.2 = false → passed.1 = result ∧ ∀ n ∈ names, mustDrop registry result n = false

theorem passed_cascadePass (hnodup : names.Nodup) (hnames : names ⊆ result) :
    Passed registry names result (cascadePass registry names result) := by
  induction names generalizing result with
  | nil => exact ⟨List.Sublist.refl _, fun _ _ _ ht => ht, nofun, fun _ => ⟨rfl, nofun⟩⟩
  | cons name names ih =>
    obtain ⟨hfresh, hnodup⟩ := List.nodup_cons.1 hnodup
    rw [cascadePass]
    split
    · next hdrop =>
      have hrest : names ⊆ result.erase name := by
        intro n hn
        have hne : n ≠ name := by
          rintro rfl
          exact hfresh hn
        exact (List.mem_erase_of_ne hne).2 (hnames (List.mem_cons_of_mem _ hn))
      have hpassed := ih hnodup hrest
      have hlength : (result.erase name).length < result.length := by
        have hmem : name ∈ result := hnames List.mem_cons_self
        have hpos := List.length_pos_of_mem hmem
        rw [List.length_erase_of_mem hmem]
        omega
      refine ⟨hpassed.sublist.trans List.erase_sublist, fun t hregistered hclosed ht => ?_, fun _ => ?_, nofun⟩
      · refine hpassed.keeps t hregistered hclosed fun n hn => ?_
        have hne : n ≠ name := by
          rintro rfl
          rw [mustDrop_eq_false hregistered hclosed ht hn] at hdrop
          cases hdrop
        exact (List.mem_erase_of_ne hne).2 (ht n hn)
      · exact Nat.lt_of_le_of_lt hpassed.sublist.length_le hlength
    · next hkept =>
      have hpassed := ih hnodup fun n hn => hnames (List.mem_cons_of_mem _ hn)
      refine ⟨hpassed.sublist, hpassed.keeps, hpassed.dropped, fun hunchanged => ?_⟩
      obtain ⟨hsame, hall⟩ := hpassed.unchanged hunchanged
      refine ⟨hsame, fun n hn => ?_⟩
      rcases List.mem_cons.1 hn with rfl | hn
      · simpa using hkept
      · exact hall n hn

/-- The loop ends at the greatest closed set of registered features in what it starts from. -/
theorem cascade_eq {fuel : ℕ} (hfuel : result.length < fuel) (hnodup : result.Nodup) :
    {n | n ∈ cascade registry fuel result} =
      greatest registry.requires {n | n ∈ registry.registered ∧ n ∈ result} := by
  induction fuel generalizing result with
  | zero => exact absurd hfuel (Nat.not_lt_zero _)
  | succ fuel ih =>
    have hpassed : Passed registry result result (cascadePass registry result result) :=
      passed_cascadePass hnodup (List.Subset.refl _)
    rw [cascade]
    split
    · next result' hpass =>
      rw [hpass] at hpassed
      have hlength : result'.length < result.length := hpassed.dropped rfl
      have hsublist : result'.Sublist result := hpassed.sublist
      rw [ih (by omega) (hnodup.sublist hsublist)]
      refine Set.Subset.antisymm (greatest_mono fun n hn => ⟨hn.1, hsublist.subset hn.2⟩) ?_
      have hregistered : greatest registry.requires {n | n ∈ registry.registered ∧ n ∈ result} ⊆
          registry.registered := fun n hn => (greatest_subset hn).1
      refine subset_greatest (fun n hn => ⟨hregistered hn, ?_⟩) closed_greatest
      exact hpassed.keeps _ hregistered closed_greatest (fun m hm => (greatest_subset hm).2) n hn
    · next result' hpass =>
      rw [hpass] at hpassed
      obtain ⟨hsame, hall⟩ := hpassed.unchanged rfl
      have hsame' : result' = result := hsame
      rw [hsame']
      refine eq_greatest (fun n hn => (greatest_subset hn).2) (fun n hn => ⟨?_, hn⟩) fun n hn dep hdep => ?_
      · exact (requires_subset_of_mustDrop (hall n hn)).1
      · exact (requires_subset_of_mustDrop (hall n hn)).2 dep hdep

theorem mem_foldl_addName : name ∈ names.foldl addName result ↔ name ∈ result ∨ name ∈ names := by
  induction names generalizing result with
  | nil => simp
  | cons n names ih =>
    rw [List.foldl_cons, ih, addName]
    split
    · next hmem =>
      rw [List.mem_cons]
      exact ⟨fun h => h.imp_right .inr, fun h => h.elim .inl fun h => h.elim (fun heq => .inl (heq ▸ hmem)) .inr⟩
    · simp only [List.mem_append, List.mem_cons, List.not_mem_nil, or_false, or_assoc]

theorem nodup_foldl_addName (h : result.Nodup) : (names.foldl addName result).Nodup := by
  induction names generalizing result with
  | nil => exact h
  | cons n names ih =>
    refine ih ?_
    rw [addName]
    split
    · exact h
    · next hfresh => exact List.nodup_append_comm.1 (List.nodup_cons.2 ⟨hfresh, h⟩)

end

/-! ## The composed resolver -/

section

variable (tierResolver : String → List String) (r : ToggleRuntime) (registry : FeatureRegistry) (tenantId : String)

/-- The toggleable features that some tier grants. -/
def tierManagedFeatures : Set String := {name | name ∈ tierResolver systemTenantId ∧ registry.isToggleable name = true}

/-- The tier's features without toggleable ones that are overridden to `false`, and those of the global cascade that
no tier manages. -/
def composedBase : Set String :=
  {name | name ∈ registry.registered ∧
    ((name ∈ tierResolver tenantId ∧ ¬ (registry.isToggleable name = true ∧ r.readOverride name = some false)) ∨
      (name ∈ r.effectiveFeatures registry ∧ name ∉ tierManagedFeatures tierResolver registry))}

end

section

variable {tierResolver : String → List String} {r : ToggleRuntime} {registry : FeatureRegistry} {tenantId name : String}

theorem TierManaged.mem_names (managed : TierManaged tierResolver registry) :
    name ∈ managed.names ↔ name ∈ tierManagedFeatures tierResolver registry := by
  have heq := managed.eq
  unfold tierManagedOf at heq
  split at heq
  · cases heq
  · have hnames := Except.ok.inj heq
    rw [← hnames, List.mem_filter]
    rfl

/-- What a call that does not throw returns. -/
theorem eq_greatest_of_compose {tierManaged : Option (TierManaged tierResolver registry)} {result : List String}
    {managed : TierManaged tierResolver registry}
    (h : composeTierResolverWithGlobalToggles tierResolver r registry tierManaged tenantId = .ok (result, managed)) :
    {n | n ∈ result} = greatest registry.requires (composedBase tierResolver r registry tenantId) := by
  have hcompose : result = cascade registry
      ((((r.effectiveFeatures registry).filter (· ∉ managed.names)).foldl addName
        ((narrowedTier tierResolver r registry tenantId).foldl addName [])).length + 1)
      (((r.effectiveFeatures registry).filter (· ∉ managed.names)).foldl addName
        ((narrowedTier tierResolver r registry tenantId).foldl addName [])) := by
    unfold composeTierResolverWithGlobalToggles at h
    split at h
    · cases h
      rfl
    · split at h
      · cases h
      · cases h
        rfl
  rw [hcompose, cascade_eq (Nat.lt_succ_self _) (nodup_foldl_addName (nodup_foldl_addName List.nodup_nil))]
  congr 1
  ext n
  simp only [mem_foldl_addName, Set.mem_ofPred_eq, composedBase, narrowedTier, List.not_mem_nil, false_or,
    List.mem_filter, decide_eq_true_eq, Bool.or_eq_true, Bool.not_eq_true', managed.mem_names]
  refine and_congr_right fun _ => or_congr (and_congr_right fun _ => ?_) Iff.rfl
  rw [not_and, ← Bool.not_eq_true, imp_iff_not_or]

/-- A call throws only where the tier resolver knows no `SYSTEM_TENANT_ID`. -/
theorem exists_compose (r : ToggleRuntime) (tenantId : String) (tierManaged : Option (TierManaged tierResolver registry))
    (hunion : tierResolver systemTenantId ≠ []) :
    ∃ result managed, composeTierResolverWithGlobalToggles tierResolver r registry tierManaged tenantId =
      .ok (result, managed) := by
  unfold composeTierResolverWithGlobalToggles
  split
  · exact ⟨_, _, rfl⟩
  · split
    · next herror =>
      unfold tierManagedOf at herror
      split at herror
      · next hempty => exact absurd hempty hunion
      · cases herror
    · exact ⟨_, _, rfl⟩

/-- A toggleable feature that is overridden to `false` is in neither part. -/
theorem not_mem_composedBase (htoggleable : registry.isToggleable name = true)
    (hoff : r.readOverride name = some false) : name ∉ composedBase tierResolver r registry tenantId := by
  rintro ⟨_, ⟨_, hkept⟩ | ⟨heffective, _⟩⟩
  · exact hkept ⟨htoggleable, hoff⟩
  · have hmem : name ∈ {n | n ∈ r.effectiveFeatures registry} := heffective
    rw [ToggleRuntime.effectiveFeatures, computeEffectiveFeatures_eq] at hmem
    have henabled := rawEnabled_of_mem hmem
    obtain ⟨feature, hfeature, htoggle⟩ := (Option.any_eq_true _ _).1 htoggleable
    obtain ⟨toggleableDefault, hdefault⟩ := Option.isSome_iff_exists.1 htoggle
    have hsnapshot : r.snapshot name = some false := hoff
    rw [rawEnabled, hfeature, Option.map_some, hdefault] at henabled
    simp [hsnapshot] at henabled

/-- An override to `false` takes nothing in. -/
theorem composedBase_apply_subset :
    composedBase tierResolver (r.apply ⟨name, false⟩) registry tenantId ⊆
      composedBase tierResolver r registry tenantId := by
  have hread : ∀ n, r.readOverride n = some false → (r.apply ⟨name, false⟩).readOverride n = some false := by
    intro n hn
    by_cases hname : name = n
    · subst hname
      exact ToggleRuntime.snapshot_apply_self
    · exact (ToggleRuntime.snapshot_apply_of_ne hname).trans hn
  have henabled : enabledFeatures registry (r.apply ⟨name, false⟩).snapshot ⊆ enabledFeatures registry r.snapshot := by
    intro n hn
    obtain ⟨feature, hfeature, hraw⟩ := Option.map_eq_some_iff.1 hn
    refine Option.map_eq_some_iff.2 ⟨feature, hfeature, ?_⟩
    cases hdefault : feature.toggleableDefault with
    | none => rfl
    | some toggleableDefault =>
      rw [hdefault] at hraw
      by_cases hname : name = n
      · subst hname
        have hset : (r.apply ⟨name, false⟩).snapshot name = some false := ToggleRuntime.snapshot_apply_self
        simp [hset] at hraw
      · have hset : (r.apply ⟨name, false⟩).snapshot n = r.snapshot n := ToggleRuntime.snapshot_apply_of_ne hname
        rwa [hset] at hraw
  rintro n ⟨hregistered, ⟨htier, hkept⟩ | ⟨heffective, hmanaged⟩⟩
  · exact ⟨hregistered, .inl ⟨htier, fun ⟨htoggleable, hoff⟩ => hkept ⟨htoggleable, hread n hoff⟩⟩⟩
  · refine ⟨hregistered, .inr ⟨?_, hmanaged⟩⟩
    have hmem : n ∈ {n | n ∈ (r.apply ⟨name, false⟩).effectiveFeatures registry} := heffective
    rw [ToggleRuntime.effectiveFeatures, computeEffectiveFeatures_eq] at hmem
    have hgreatest := greatest_mono henabled hmem
    rw [← computeEffectiveFeatures_eq] at hgreatest
    exact hgreatest

/-- The composed resolver returns the greatest closed subset, has no toggleable feature that is overridden to `false`,
and takes no feature in when another override is set to `false`. -/
theorem composed_isGreatest (tierResolver : String → List String) (r : ToggleRuntime) (registry : FeatureRegistry)
    (tenantId : String) (tierManaged : Option (TierManaged tierResolver registry))
    (hunion : tierResolver systemTenantId ≠ []) :
    ∃ result managed,
      composeTierResolverWithGlobalToggles tierResolver r registry tierManaged tenantId = .ok (result, managed) ∧
      IsGreatest (closedIn registry.requires (composedBase tierResolver r registry tenantId)) {n | n ∈ result} ∧
      (∀ name, registry.isToggleable name = true → r.readOverride name = some false → name ∉ result) ∧
      ∀ name result' managed',
        composeTierResolverWithGlobalToggles tierResolver (r.apply ⟨name, false⟩) registry (some managed) tenantId =
          .ok (result', managed') → result' ⊆ result := by
  obtain ⟨result, managed, hcompose⟩ := exists_compose r tenantId tierManaged hunion
  have heq := eq_greatest_of_compose hcompose
  refine ⟨result, managed, hcompose, heq ▸ isGreatest_greatest, fun name htoggleable hoff hmem => ?_, ?_⟩
  · have hgreatest : name ∈ {n | n ∈ result} := hmem
    rw [heq] at hgreatest
    exact not_mem_composedBase htoggleable hoff (greatest_subset hgreatest)
  · intro name result' managed' hcompose' n hn
    have hn' : n ∈ {n | n ∈ result'} := hn
    rw [eq_greatest_of_compose hcompose'] at hn'
    have hgreatest := greatest_mono composedBase_apply_subset hn'
    rw [← heq] at hgreatest
    exact hgreatest

/-! ## Two features -/

/-- Invoices need the toggleable billing. -/
def invoiceFeatures : List FeatureDefinition := [⟨"billing", [], some false⟩, ⟨"invoices", ["billing"], none⟩]

theorem height_lt_of_invoiceFeatures (name : String) :
    ∀ dep ∈ requiresOf invoiceFeatures name,
      (if dep = "invoices" then 1 else 0) < if name = "invoices" then 1 else 0 := by
  rintro dep ⟨feature, hfeature, hdep⟩
  have hname := List.find?_some hfeature
  have hmem : feature ∈ invoiceFeatures := List.mem_of_find?_eq_some hfeature
  simp only [invoiceFeatures, List.mem_cons, List.not_mem_nil, or_false] at hmem
  rcases hmem with rfl | rfl
  · cases hdep
  · rw [← of_decide_eq_true hname, List.mem_singleton.1 hdep]
    decide

def invoiceRegistry : FeatureRegistry where
  features := invoiceFeatures
  nodup := by decide
  acyclic := not_transGen_self height_lt_of_invoiceFeatures

/-- Every tenant's tier grants both. -/
def invoiceTiers (_tenantId : String) : List String := ["invoices", "billing"]

/-- Billing is overridden to `false`: neither feature is left. -/
theorem composed_isGreatest_invoices : ∃ result managed,
    composeTierResolverWithGlobalToggles invoiceTiers ⟨fun _ => some false, []⟩ invoiceRegistry none "tenant-a" =
      .ok (result, managed) ∧ "billing" ∉ result ∧ "invoices" ∉ result := by
  obtain ⟨result, managed, hcompose, hgreatest, hoff, -⟩ :=
    composed_isGreatest invoiceTiers ⟨fun _ => some false, []⟩ invoiceRegistry "tenant-a" none (by decide)
  have hbilling : "billing" ∉ result := hoff "billing" (by decide) rfl
  refine ⟨result, managed, hcompose, hbilling, fun hinvoices => hbilling ?_⟩
  exact hgreatest.1.2 "invoices" hinvoices ⟨⟨"invoices", ["billing"], none⟩, by decide, List.mem_cons_self⟩

/-- The guard throws where no tier grants anything and the resolver adds no feature that is always on. -/
theorem not_composed_isGreatest : ¬ ∀ (tierResolver : String → List String) (r : ToggleRuntime)
    (registry : FeatureRegistry) (tenantId : String), ∃ result managed,
      composeTierResolverWithGlobalToggles tierResolver r registry none tenantId = .ok (result, managed) ∧
        IsGreatest (closedIn registry.requires (composedBase tierResolver r registry tenantId)) {n | n ∈ result} := by
  intro h
  obtain ⟨result, managed, hcompose, -⟩ := h (fun _ => []) ⟨fun _ => none, []⟩ invoiceRegistry "tenant-a"
  unfold composeTierResolverWithGlobalToggles at hcompose
  cases hcompose

end

end Kumiko
