import Kumiko.Tenant.LastAdmin

/-!
# Role grants

What `updateMemberRoles` commands of human actors make of the memberships, over every interleaving of their
statements. Besides the store a run keeps whose command each transaction runs and what has been written: the roles the
membership had when it was written, and those it has then. A write is pinned to the version its command has read, so
the roles the command has judged are those it replaces.
-/

namespace Kumiko

open Transition

/-! ## One command -/

/-- What a written update has changed. -/
structure RoleGrant where
  userId : String
  actorRoles : List String
  before : List String
  after : List String

/-- The actor may assign every role that has come or gone, and no role that is ranked above it has. -/
structure RoleGrant.Within (assignableAppRoles : List (String × String)) (grant : RoleGrant) : Prop where
  added : ∀ role ∈ grant.after, role ∉ grant.before →
    canActorAssignRole grant.actorRoles role assignableAppRoles = true
  removed : ∀ role ∈ grant.before, role ∉ grant.after →
    canActorAssignRole grant.actorRoles role assignableAppRoles = true
  above : ∀ role rank, knownRoleRank role = some rank → maxRoleRank grant.actorRoles < (rank : ℤ) →
    (role ∈ grant.after ↔ role ∈ grant.before)

section

variable {assignableAppRoles : List (String × String)} {actorRoles assigned current : List String} {role : String}
  {rank : ℕ} {row : TenantMembership}

theorem canActorAssignRole_of_rank (h : knownRoleRank role = some rank) :
    canActorAssignRole actorRoles role assignableAppRoles = true ↔ (rank : ℤ) ≤ maxRoleRank actorRoles := by
  simp [canActorAssignRole, requiredAssignRank, h]

/-- Nothing forbidden: an assigned role may be assigned by the actor, or is unranked and held already; and the target
holds no role above the actor. -/
theorem of_findForbiddenRoleAssignment
    (h : findForbiddenRoleAssignment actorRoles assigned current assignableAppRoles = none) :
    (∀ role ∈ assigned, canActorAssignRole actorRoles role assignableAppRoles = true ∨
      knownRoleRank role = none ∧ role ∈ current) ∧
    ∀ role ∈ current, ∀ rank, knownRoleRank role = some rank → (rank : ℤ) ≤ maxRoleRank actorRoles := by
  rw [findForbiddenRoleAssignment, Option.or_eq_none_iff, List.find?_eq_none, List.find?_eq_none] at h
  refine ⟨fun role hrole => ?_, fun role hrole rank hrank => ?_⟩
  · have hallowed := h.1 role hrole
    simp only [Bool.and_eq_true, Bool.not_eq_true', not_and, Bool.not_eq_false, Option.isNone_iff_eq_none,
      List.contains_iff_mem] at hallowed
    cases hcan : canActorAssignRole actorRoles role assignableAppRoles with
    | true => exact .inl rfl
    | false => exact .inr (hallowed hcan)
  · have hbelow := h.2 role hrole
    rw [hrank] at hbelow
    simpa using hbelow

theorem mem_mergeAssignedRoles : role ∈ mergeAssignedRoles actorRoles assigned current assignableAppRoles ↔
    role ∈ assigned ∨
      role ∈ current ∧ role ∉ assigned ∧ canActorAssignRole actorRoles role assignableAppRoles = false := by
  rw [mergeAssignedRoles, List.mem_eraseDups, List.mem_append, List.mem_filter]
  simp only [Bool.and_eq_true, Bool.not_eq_true', List.contains_eq_mem, decide_eq_false_iff_not]

/-- What a command of a human actor makes of the roles it has read is within the actor's rights. -/
theorem within_mergeAssignedRoles (userId : String)
    (h : findForbiddenRoleAssignment actorRoles assigned current assignableAppRoles = none) :
    RoleGrant.Within assignableAppRoles
      ⟨userId, actorRoles, current, mergeAssignedRoles actorRoles assigned current assignableAppRoles⟩ := by
  obtain ⟨hassigned, hcurrent⟩ := of_findForbiddenRoleAssignment h
  refine ⟨fun role hafter hbefore => ?_, fun role hbefore hafter => ?_, fun role rank hrank habove => ?_⟩
  · rcases mem_mergeAssignedRoles.1 hafter with hmem | ⟨hmem, -⟩
    · exact (hassigned role hmem).resolve_right fun hheld => hbefore hheld.2
    · exact absurd hmem hbefore
  · rw [mem_mergeAssignedRoles, not_or] at hafter
    by_contra hcannot
    exact hafter.2 ⟨hbefore, hafter.1, by simpa using hcannot⟩
  · -- such a role is neither held nor assigned
    have hheld : role ∉ current := fun hmem => absurd (hcurrent role hmem rank hrank) (Int.not_le.2 habove)
    refine iff_of_false (fun hafter => ?_) hheld
    rcases mem_mergeAssignedRoles.1 hafter with hmem | ⟨hmem, -⟩
    · rcases hassigned role hmem with hcan | ⟨hunranked, -⟩
      · exact absurd ((canActorAssignRole_of_rank hrank).1 hcan) (Int.not_le.2 habove)
      · rw [hrank] at hunranked
        cases hunranked
    · exact hheld hmem

/-- A human actor's command that is not refused asks for a merge that nothing forbids. -/
theorem change_of_human {change : MemberChange} {userId : String} (hhuman : "system" ∉ actorRoles)
    (h : (MemberCommand.updateMemberRoles actorRoles userId assigned).change assignableAppRoles row = some change) :
    change = .update row.version (mergeAssignedRoles actorRoles assigned row.roles assignableAppRoles) ∧
      findForbiddenRoleAssignment actorRoles assigned row.roles assignableAppRoles = none := by
  rw [MemberCommand.change] at h
  split at h
  · cases h
  split at h
  · next hsystem => exact absurd (List.contains_iff_mem.1 hsystem) hhuman
  split at h
  · cases h
  · next hallowed =>
    cases h
    exact ⟨rfl, by simpa using hallowed⟩

end

/-! ## Runs -/

/-- The store, whose command each transaction runs, and what has been written. -/
structure GrantStore (n : ℕ) where
  store : MemberStore n
  actors : Fin n → List String
  grants : List RoleGrant

namespace GrantStore

variable {n : ℕ}

def initial (rows : List TenantMembership) : GrantStore n := ⟨.initial rows, fun _ => [], []⟩

/-- The change that a step of a transaction has written, if it has. -/
def written (s : GrantStore n) (k : Fin n) (store : MemberStore n) : List RoleGrant :=
  match (store.clients k).writes.drop (s.store.clients k).writes.length with
  | [.set row] =>
    (memberOf (s.store.view k) row.userId).toList.map fun current =>
      ⟨row.userId, s.actors k, current.roles, row.roles⟩
  | _ => []

def step (assignableAppRoles : List (String × String)) (s : GrantStore n) (a : MemberAct n) : Option (GrantStore n) :=
  (s.store.step assignableAppRoles a).map fun store =>
    match a with
    | .start k (.updateMemberRoles actorRoles _ _) =>
      { s with store, actors := Function.update s.actors k actorRoles }
    | .run k => { s with store, grants := s.grants ++ s.written k store }
    | _ => { s with store }

/-- Every command is a role update of a human actor. -/
def HumanUpdates (_ : GrantStore n) : MemberAct n → Prop
  | .start _ (.updateMemberRoles actorRoles _ _) => "system" ∉ actorRoles
  | .start _ (.removeMember _) => False
  | .run _ | .fail _ | .commit _ | .rollback _ => True

instance (s : GrantStore n) : (a : MemberAct n) → Decidable (s.HumanUpdates a)
  | .start _ (.updateMemberRoles actorRoles _ _) => inferInstanceAs (Decidable ("system" ∉ actorRoles))
  | .start _ (.removeMember _) => .isFalse not_false
  | .run _ | .fail _ | .commit _ | .rollback _ => .isTrue trivial

end GrantStore

/-- The phase belongs to a role update of that human actor. -/
def MemberPhase.IsUpdateOf (assignableAppRoles : List (String × String)) (actorRoles : List String) :
    MemberPhase → Prop
  | .fetch command => ∃ userId roles, command = .updateMemberRoles actorRoles userId roles
  | .lock row change | .count row change | .write row change => ∃ userId roles,
      (MemberCommand.updateMemberRoles actorRoles userId roles).change assignableAppRoles row = some change

/-- Each ranked role of the membership was there at the start, or its rank is at most that of an actor. -/
def TenantMembership.Granted (rows : List TenantMembership) (grants : List RoleGrant) (m : TenantMembership) : Prop :=
  ∀ role ∈ m.roles, ∀ rank, knownRoleRank role = some rank →
    (∃ old ∈ rows, old.userId = m.userId ∧ role ∈ old.roles) ∨
      ∃ grant ∈ grants, (rank : ℤ) ≤ maxRoleRank grant.actorRoles

theorem TenantMembership.Granted.mono {rows : List TenantMembership} {grants grants' : List RoleGrant}
    {m : TenantMembership} (h : m.Granted rows grants) (hgrants : grants ⊆ grants') : m.Granted rows grants' :=
  fun role hrole rank hrank =>
    (h role hrole rank hrank).imp_right fun ⟨grant, hgrant, hle⟩ => ⟨grant, hgrants hgrant, hle⟩

/-- What a transaction sees is committed or written by it. -/
theorem mem_foldl_apply {rows : List TenantMembership} {writes : List MemberWrite} {m : TenantMembership}
    (h : m ∈ writes.foldl MemberWrite.apply rows) : m ∈ rows ∨ .set m ∈ writes := by
  induction writes generalizing rows with
  | nil => exact .inl h
  | cons w writes ih =>
    rcases ih h with happly | hmem
    · cases w with
      | set row =>
        rcases KeyedRows.mem_put happly with rfl | ⟨hold, -⟩
        · exact .inr List.mem_cons_self
        · exact .inl hold
      | remove userId => exact .inl (KeyedRows.mem_delete.1 happly).1
    · exact .inr (List.mem_cons_of_mem _ hmem)

namespace GrantStore

variable {n : ℕ} {assignableAppRoles : List (String × String)} {rows : List TenantMembership} {s s' : GrantStore n}
  {k : Fin n} {a : MemberAct n}

structure Inv (assignableAppRoles : List (String × String)) (rows : List TenantMembership) (s : GrantStore n) :
    Prop where
  store : s.store.MemberInv
  phases : ∀ k phase, (s.store.clients k).phase = some phase →
    "system" ∉ s.actors k ∧ phase.IsUpdateOf assignableAppRoles (s.actors k)
  grants : ∀ grant ∈ s.grants, grant.Within assignableAppRoles
  committed : ∀ m ∈ s.store.rows, m.Granted rows s.grants
  writes : ∀ k m, .set m ∈ (s.store.clients k).writes → m.Granted rows s.grants

/-- What a statement of a command does to its client. -/
inductive RunStep (assignableAppRoles : List (String × String)) (s : MemberStore n) (k : Fin n) :
    MemberPhase → MemberStore n → Prop
  | stop {phase : MemberPhase} : RunStep assignableAppRoles s k phase (s.setPhase k none)
  | fetched {command : MemberCommand} {row : TenantMembership} {change : MemberChange} {phase : MemberPhase} :
    command.change assignableAppRoles row = some change → phase = .lock row change ∨ phase = .write row change →
      RunStep assignableAppRoles s k (.fetch command) (s.setPhase k (some phase))
  | locked {row : TenantMembership} {change : MemberChange} :
    RunStep assignableAppRoles s k (.lock row change) { s.setPhase k (some (.count row change)) with lock := some k }
  | counted {row : TenantMembership} {change : MemberChange} :
    RunStep assignableAppRoles s k (.count row change) (s.setPhase k (some (.write row change)))
  | deleted {row : TenantMembership} : RunStep assignableAppRoles s k (.write row .delete)
      (s.setClient k ⟨(s.clients k).writes ++ [.remove row.userId], none⟩)
  | updated {row current : TenantMembership} {version : ℕ} {roles : List String} :
    memberOf (s.view k) row.userId = some current → current.version = version →
      RunStep assignableAppRoles s k (.write row (.update version roles))
        (s.setClient k ⟨(s.clients k).writes ++ [.set { current with roles, version := current.version + 1 }], none⟩)

theorem RunStep.of_runCommand {s s' : MemberStore n} {phase : MemberPhase}
    (h : s.runCommand assignableAppRoles k phase = some s') : RunStep assignableAppRoles s k phase s' := by
  cases phase with
  | fetch command =>
    simp only [MemberStore.runCommand] at h
    split at h
    · cases h
      exact .stop
    · split at h
      · cases h
        exact .stop
      · next row _ change hchange =>
        cases h
        refine .fetched hchange ?_
        split
        · exact .inl rfl
        · exact .inr rfl
  | lock row change =>
    simp only [MemberStore.runCommand] at h
    split at h
    · cases h
      exact .locked
    · cases h
  | count row change =>
    simp only [MemberStore.runCommand] at h
    cases h
    split
    · exact .stop
    · exact .counted
  | write row change =>
    simp only [MemberStore.runCommand] at h
    split at h
    · cases h
    split at h
    · cases h
      exact .stop
    · cases h
      exact .deleted
    · next current version roles hcurrent =>
      split at h
      · next hversion =>
        cases h
        exact .updated hcurrent hversion
      · cases h
        exact .stop

/-! ## The steps -/

/-- A statement that writes nothing adds no change. -/
theorem written_eq_nil {store : MemberStore n} (h : (store.clients k).writes = (s.store.clients k).writes) :
    s.written k store = [] := by
  rw [written, h, List.drop_length]

/-- A role update replaces the roles it has judged. -/
theorem Inv.updated (h : s.Inv assignableAppRoles rows) {row current : TenantMembership} {version : ℕ}
    {roles : List String} (hphase : (s.store.clients k).phase = some (.write row (.update version roles)))
    (hcurrent : memberOf (s.store.view k) row.userId = some current) (hversion : current.version = version) :
    (⟨current.userId, s.actors k, current.roles, roles⟩ : RoleGrant).Within assignableAppRoles := by
  obtain ⟨hlater, hpinned, -⟩ := h.store.phases k _ hphase
  obtain ⟨hhuman, userId, assigned, hchange⟩ := h.phases k _ hphase
  have hsame : current = row := (hlater current hcurrent).2 (hversion.trans (hpinned version roles rfl))
  obtain ⟨hmerge, hallowed⟩ := change_of_human hhuman hchange
  cases hmerge
  rw [hsame]
  exact within_mergeAssignedRoles row.userId hallowed

/-- A ranked role of a written membership was held already or is within the actor's rank. -/
theorem Inv.granted (h : s.Inv assignableAppRoles rows) {current : TenantMembership} {roles : List String}
    {version : ℕ} {grants : List RoleGrant} {grant : RoleGrant} (hcurrent : current ∈ s.store.view k)
    (hgrant : grant = ⟨current.userId, s.actors k, current.roles, roles⟩)
    (hwithin : grant.Within assignableAppRoles) (hgrants : s.grants ⊆ grants) (hmem : grant ∈ grants) :
    ({ current with roles, version } : TenantMembership).Granted rows grants := by
  intro role hrole rank hrank
  by_cases hbefore : role ∈ current.roles
  · have hold : current.Granted rows s.grants :=
      (mem_foldl_apply hcurrent).elim (h.committed current) (h.writes k current)
    exact hold.mono hgrants role hbefore rank hrank
  · refine .inr ⟨grant, hmem, ?_⟩
    subst hgrant
    exact (canActorAssignRole_of_rank hrank).1 (hwithin.added role hrole hbefore)

/-- No statement of a role update deletes a membership. -/
theorem Inv.keepsAdmins (h : s.Inv assignableAppRoles rows) : s.store.KeepsAdmins (.run k) := by
  intro row hphase
  obtain ⟨hhuman, userId, assigned, hchange⟩ := h.phases k _ hphase
  cases (change_of_human hhuman hchange).1

/-- A step that only moves the command of one transaction on. -/
theorem Inv.of_phase (h : s.Inv assignableAppRoles rows) {store : MemberStore n} {actors : Fin n → List String}
    (hstore : store.MemberInv) (hrows : store.rows = s.store.rows)
    (hwrites : ∀ k, (store.clients k).writes = (s.store.clients k).writes)
    (hphases : ∀ k phase, (store.clients k).phase = some phase →
      "system" ∉ actors k ∧ phase.IsUpdateOf assignableAppRoles (actors k)) :
    Inv assignableAppRoles rows ⟨store, actors, s.grants⟩ :=
  ⟨hstore, hphases, h.grants, fun m hm => h.committed m (hrows ▸ hm), fun k m hm => h.writes k m (hwrites k ▸ hm)⟩

/-- The phases after a client has changed. -/
theorem Inv.phases_setClient (h : s.Inv assignableAppRoles rows) {client : MemberClient}
    (hclient : ∀ phase, client.phase = some phase → phase.IsUpdateOf assignableAppRoles (s.actors k))
    (hold : (s.store.clients k).phase.isSome) (k' : Fin n) (phase : MemberPhase)
    (hphase : ((s.store.setClient k client).clients k').phase = some phase) :
    "system" ∉ s.actors k' ∧ phase.IsUpdateOf assignableAppRoles (s.actors k') := by
  by_cases hk : k' = k
  · subst hk
    rw [MemberStore.clients_self] at hphase
    obtain ⟨old, hold⟩ := Option.isSome_iff_exists.1 hold
    exact ⟨(h.phases k' old hold).1, hclient phase hphase⟩
  · rw [MemberStore.clients_of_ne hk] at hphase
    exact h.phases k' phase hphase

theorem Inv.run (h : s.Inv assignableAppRoles rows) {phase : MemberPhase} {store : MemberStore n}
    (hphase : (s.store.clients k).phase = some phase) (hstore : store.MemberInv)
    (hs : RunStep assignableAppRoles s.store k phase store) :
    Inv assignableAppRoles rows { s with store, grants := s.grants ++ s.written k store } := by
  have hsome : (s.store.clients k).phase.isSome := by rw [hphase]; rfl
  have hupdate := (h.phases k phase hphase).2
  -- the statements that write nothing
  have hmoves : ∀ next : Option MemberPhase, store.rows = s.store.rows →
      store.clients = (s.store.setPhase k next).clients →
      (∀ phase, next = some phase → phase.IsUpdateOf assignableAppRoles (s.actors k)) →
      Inv assignableAppRoles rows { s with store, grants := s.grants ++ s.written k store } := by
    intro next hrows hclients hnext
    have hwrites : ∀ k', (store.clients k').writes = (s.store.clients k').writes := fun k' => by
      rw [hclients, MemberStore.writes_setPhase]
    rw [written_eq_nil (hwrites k), List.append_nil]
    refine h.of_phase hstore hrows hwrites fun k' phase hphase => ?_
    rw [hclients] at hphase
    exact h.phases_setClient hnext hsome k' phase hphase
  cases hs with
  | stop => exact hmoves none rfl rfl nofun
  | fetched hchange hnext =>
    obtain ⟨userId, roles, rfl⟩ := hupdate
    refine hmoves _ rfl rfl fun phase heq => ?_
    cases heq
    rcases hnext with rfl | rfl
    · exact ⟨userId, roles, hchange⟩
    · exact ⟨userId, roles, hchange⟩
  | locked =>
    refine hmoves _ rfl rfl fun phase heq => ?_
    cases heq
    exact hupdate
  | counted =>
    refine hmoves _ rfl rfl fun phase heq => ?_
    cases heq
    exact hupdate
  | deleted =>
    obtain ⟨hhuman, userId, assigned, hchange⟩ := h.phases k _ hphase
    cases (change_of_human hhuman hchange).1
  | @updated row current version roles hcurrent hversion =>
    have hwithin := h.updated hphase hcurrent hversion
    have huser : current.userId = row.userId := KeyedRows.key_of_lookup hcurrent
    have hcurrent' : memberOf (s.store.view k) current.userId = some current := huser ▸ hcurrent
    have hgrant : s.written k (s.store.setClient k ⟨(s.store.clients k).writes ++
        [.set { current with roles, version := current.version + 1 }], none⟩) =
        [⟨current.userId, s.actors k, current.roles, roles⟩] := by
      rw [written, MemberStore.clients_self]
      simp only [List.drop_left, hcurrent', Option.toList_some, List.map_cons, List.map_nil]
    rw [hgrant]
    have hnew : ({ current with roles, version := current.version + 1 } : TenantMembership).Granted rows
        (s.grants ++ [⟨current.userId, s.actors k, current.roles, roles⟩]) :=
      h.granted (KeyedRows.mem_of_lookup hcurrent) rfl hwithin (List.subset_append_left _ _)
        (List.mem_append_right _ List.mem_cons_self)
    refine ⟨hstore, fun k' phase hphase => h.phases_setClient (fun _ hnone => by cases hnone) hsome k' phase hphase,
      ?_, ?_, ?_⟩
    · intro grant hmem
      rcases List.mem_append.1 hmem with hold | hmem
      · exact h.grants grant hold
      · rw [List.mem_singleton.1 hmem]
        exact hwithin
    · exact fun m hm => (h.committed m hm).mono (List.subset_append_left _ _)
    · intro k' m hm
      by_cases hk : k' = k
      · subst hk
        rw [MemberStore.clients_self] at hm
        rcases List.mem_append.1 hm with hold | hmem
        · exact (h.writes k' m hold).mono (List.subset_append_left _ _)
        · cases List.mem_singleton.1 hmem
          exact hnew
      · have hclient : (s.store.setClient k ⟨(s.store.clients k).writes ++
            [.set { current with roles, version := current.version + 1 }], none⟩).clients k' = s.store.clients k' :=
          MemberStore.clients_of_ne hk
        rw [hclient] at hm
        exact (h.writes k' m hm).mono (List.subset_append_left _ _)

/-- A transaction ends: `committed` are the memberships after it. -/
theorem Inv.finish (h : s.Inv assignableAppRoles rows) {committed : List TenantMembership}
    (hstore : (s.store.finish k committed).MemberInv) (hcommitted : ∀ m ∈ committed, m.Granted rows s.grants) :
    Inv assignableAppRoles rows { s with store := s.store.finish k committed } := by
  refine ⟨hstore, fun k' phase hphase => ?_, h.grants, hcommitted, fun k' m hm => ?_⟩
  · by_cases hk : k' = k
    · subst hk
      rw [MemberStore.finish_self] at hphase
      cases hphase
    · rw [MemberStore.finish_of_ne hk] at hphase
      exact h.phases k' phase hphase
  · by_cases hk : k' = k
    · subst hk
      rw [MemberStore.finish_self] at hm
      cases hm
    · rw [MemberStore.finish_of_ne hk] at hm
      exact h.writes k' m hm

theorem Inv.step (h : s.Inv assignableAppRoles rows) (hok : s.HumanUpdates a)
    (hs : s.step assignableAppRoles a = some s') : s'.Inv assignableAppRoles rows := by
  obtain ⟨store, hstep, rfl⟩ := Option.map_eq_some_iff.1 hs
  have hkeeps : s.store.KeepsAdmins a := by
    cases a with
    | run k => exact h.keepsAdmins
    | start | fail | commit | rollback => trivial
  have hstore := h.store.step hkeeps hstep
  cases a with
  | start k command =>
    cases command with
    | removeMember userId => cases hok
    | updateMemberRoles actorRoles userId roles =>
      simp only [MemberStore.step] at hstep
      split at hstep
      · cases hstep
      · cases hstep
        refine h.of_phase hstore rfl (fun _ => MemberStore.writes_setPhase) fun k' phase hphase => ?_
        by_cases hk : k' = k
        · subst hk
          rw [MemberStore.setPhase, MemberStore.clients_self] at hphase
          cases hphase
          rw [Function.update_self]
          exact ⟨hok, userId, roles, rfl⟩
        · rw [MemberStore.setPhase, MemberStore.clients_of_ne hk] at hphase
          rw [Function.update_of_ne hk]
          exact h.phases k' phase hphase
  | run k =>
    obtain ⟨phase, hphase, hrun⟩ := Option.bind_eq_some_iff.1 hstep
    exact h.run hphase hstore (.of_runCommand hrun)
  | fail k =>
    cases hstep
    refine h.of_phase hstore rfl (fun _ => MemberStore.writes_setPhase) fun k' phase hphase => ?_
    by_cases hk : k' = k
    · subst hk
      rw [MemberStore.setPhase, MemberStore.clients_self] at hphase
      cases hphase
    · rw [MemberStore.setPhase, MemberStore.clients_of_ne hk] at hphase
      exact h.phases k' phase hphase
  | commit k =>
    simp only [MemberStore.step] at hstep
    split at hstep
    · cases hstep
    · cases hstep
      refine h.finish hstore fun m hm => ?_
      exact (mem_foldl_apply hm).elim (h.committed m) (h.writes k m)
  | rollback k =>
    cases hstep
    exact h.finish hstore h.committed

theorem inv_initial (hrows : (rows.map (·.userId)).Nodup) :
    (initial rows : GrantStore n).Inv assignableAppRoles rows where
  store := MemberStore.memberInv_initial hrows
  phases _ _ h := nomatch h
  grants _ h := nomatch h
  committed m hm := fun _ hrole _ _ => .inl ⟨m, hm, rfl, hrole⟩
  writes _ _ h := nomatch h

end GrantStore

/-- Whatever human actors' role updates have written is within the right of its actor, and no membership, committed or
seen by a transaction, has come to a ranked role above every actor. -/
theorem roleGrants_of_run {n : ℕ} (assignableAppRoles : List (String × String)) (rows : List TenantMembership)
    (hrows : (rows.map (·.userId)).Nodup) (s : GrantStore n)
    (hr : Run (GrantStore.step assignableAppRoles) GrantStore.HumanUpdates (.initial rows) s) :
    (∀ grant ∈ s.grants, grant.Within assignableAppRoles) ∧
      (∀ m ∈ s.store.rows, m.Granted rows s.grants) ∧ ∀ k, ∀ m ∈ s.store.view k, m.Granted rows s.grants := by
  have h := hr.invariant (GrantStore.inv_initial hrows) fun _ _ _ h hok hs => h.step hok hs
  exact ⟨h.grants, h.committed, fun k m hm => (mem_foldl_apply hm).elim (h.committed m) (h.writes k m)⟩

/-- A tenant admin replaces the roles of a member, who keeps the one that nobody may assign. -/
theorem roleGrants_of_run_billing : ∃ s : GrantStore 1,
    s.store.rows = [⟨"bob", ["Editor", "Billing", "Legacy"], 2⟩] ∧
      (∀ grant ∈ s.grants, grant.Within [("Billing", "Admin")]) ∧
      ∀ m ∈ s.store.rows, m.Granted [⟨"bob", ["Member", "Legacy"], 1⟩] s.grants := by
  obtain ⟨s, hr, hs⟩ := exists_run_of_execOk (GrantStore.step [("Billing", "Admin")])
    (fun s a => decide (s.HumanUpdates a)) (.initial [⟨"bob", ["Member", "Legacy"], 1⟩] : GrantStore 1)
    [.start 0 (.updateMemberRoles ["TenantAdmin"] "bob" ["Editor", "Billing"]), .run 0, .run 0, .commit 0]
    (fun s => s.store.rows = [⟨"bob", ["Editor", "Billing", "Legacy"], 2⟩]) (fun _ _ hb => of_decide_eq_true hb)
    (by decide +kernel) (by decide +kernel)
  obtain ⟨hgrants, hrows, -⟩ := roleGrants_of_run [("Billing", "Admin")] [⟨"bob", ["Member", "Legacy"], 1⟩] (by decide) s hr
  exact ⟨s, of_decide_eq_true hs, hgrants, hrows⟩

end Kumiko
