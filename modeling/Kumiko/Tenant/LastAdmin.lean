import Kumiko.Library.KeyedRows
import Kumiko.Library.Run

/-!
# The last admin of a tenant

`tenant/handlers/remove-member.write.ts`, `update-member-roles.write.ts` and `last-tenant-admin.ts` for one
tenant. A command that loses a `TenantAdmin` waits for the lock of the tenant and counts the admins before it
writes. An update is pinned to the version it has read, a removal is not. Where no unguarded removal deletes an
admin, the tenant keeps one (`admin_stays_of_run`).
-/

namespace Kumiko

open Transition

/-! ## Roles -/

/-- Reference: `ROLE_RANKS`. -/
def roleRanks : List (String × ℕ) :=
  [("User", 0), ("Member", 0), ("Editor", 1), ("Admin", 2), ("TenantAdmin", 3), ("SystemAdmin", 4), ("system", 5)]

/-- Reference: `knownRoleRank`. -/
def knownRoleRank (role : String) : Option ℕ := roleRanks.lookup role

/-- Reference: `maxRoleRank`. -/
def maxRoleRank (roles : List String) : ℤ :=
  (roles.map fun role => ((knownRoleRank role).map Int.ofNat).getD (-1)).foldl max (-1)

/-- The rank that a role asks for, none where nobody may assign it. Reference: `requiredAssignRank`. -/
def requiredAssignRank (role : String) (assignableAppRoles : List (String × String)) : Option ℕ :=
  match knownRoleRank role with
  | some rank => some rank
  | none => (assignableAppRoles.lookup role).bind knownRoleRank

/-- Reference: `canActorAssignRole`. -/
def canActorAssignRole (actorRoles : List String) (role : String) (assignableAppRoles : List (String × String)) :
    Bool :=
  (requiredAssignRank role assignableAppRoles).any fun rank => (rank : ℤ) ≤ maxRoleRank actorRoles

/-- Reference: `mergeAssignedRoles`. -/
def mergeAssignedRoles (actorRoles assignedRoles targetCurrentRoles : List String)
    (assignableAppRoles : List (String × String)) : List String :=
  (assignedRoles ++ targetCurrentRoles.filter fun role =>
    !assignedRoles.contains role && !canActorAssignRole actorRoles role assignableAppRoles).eraseDups

/-- Reference: `findForbiddenRoleAssignment`. -/
def findForbiddenRoleAssignment (actorRoles assignedRoles targetCurrentRoles : List String)
    (assignableAppRoles : List (String × String)) : Option String :=
  let forbiddenAssigned := assignedRoles.find? fun role =>
    !canActorAssignRole actorRoles role assignableAppRoles &&
      !((knownRoleRank role).isNone && targetCurrentRoles.contains role)
  let forbiddenTarget := targetCurrentRoles.find? fun role =>
    (knownRoleRank role).any fun rank => maxRoleRank actorRoles < (rank : ℤ)
  forbiddenAssigned.or forbiddenTarget

/-- Reference: `FORBIDDEN_MEMBERSHIP_ROLES`. -/
def forbiddenMembershipRoles : List String := ["system", "SystemAdmin", "all", "anonymous"]

/-- Reference: `findForbiddenMembershipRole`. -/
def findForbiddenMembershipRole (roles : List String) : Option String :=
  roles.find? forbiddenMembershipRoles.contains

/-! ## Memberships and commands -/

/-- A row of the memberships of the tenant. Reference: `tenantMembershipEntity`. -/
structure TenantMembership where
  userId : String
  roles : List String
  version : ℕ
  deriving DecidableEq

def TenantMembership.IsAdmin (row : TenantMembership) : Prop := "TenantAdmin" ∈ row.roles

instance (row : TenantMembership) : Decidable row.IsAdmin := inferInstanceAs (Decidable (_ ∈ _))

inductive MemberCommand where
  | removeMember (userId : String)
  | updateMemberRoles (actorRoles : List String) (userId : String) (roles : List String)

def MemberCommand.userId : MemberCommand → String
  | .removeMember userId | .updateMemberRoles _ userId _ => userId

/-- What a command asks the executor for. -/
inductive MemberChange where
  | delete
  | update (version : ℕ) (roles : List String)

/-- What a command makes of the membership it has read, none where it is refused. Reference: `updateMemberRoles`,
`removeMember`. -/
def MemberCommand.change (assignableAppRoles : List (String × String)) (row : TenantMembership) :
    MemberCommand → Option MemberChange
  | .removeMember _ => some .delete
  | .updateMemberRoles actorRoles _ roles =>
    if (findForbiddenMembershipRole roles).isSome then none
    else if actorRoles.contains "system" then some (.update row.version roles)
    else if (findForbiddenRoleAssignment actorRoles roles row.roles assignableAppRoles).isSome then none
    else some (.update row.version (mergeAssignedRoles actorRoles roles row.roles assignableAppRoles))

/-- The membership as read loses its `TenantAdmin`, so the handler asks for the last one. -/
def MemberChange.Loses (row : TenantMembership) : MemberChange → Prop
  | .delete => row.IsAdmin
  | .update _ roles => row.IsAdmin ∧ "TenantAdmin" ∉ roles

instance (row : TenantMembership) : (change : MemberChange) → Decidable (change.Loses row)
  | .delete => inferInstanceAs (Decidable row.IsAdmin)
  | .update .. => inferInstanceAs (Decidable (_ ∧ _))

/-- Before which statement a command is. -/
inductive MemberPhase where
  | fetch (command : MemberCommand)
  | lock (row : TenantMembership) (change : MemberChange)
  | count (row : TenantMembership) (change : MemberChange)
  | write (row : TenantMembership) (change : MemberChange)

/-- A row that a transaction has written, or deleted. -/
inductive MemberWrite where
  | set (row : TenantMembership)
  | remove (userId : String)

namespace MemberWrite

def userId : MemberWrite → String
  | .set row => row.userId
  | .remove userId => userId

def apply (rows : List TenantMembership) : MemberWrite → List TenantMembership
  | .set row => KeyedRows.put (·.userId) row rows
  | .remove userId => KeyedRows.delete (·.userId) userId rows

end MemberWrite

structure MemberClient where
  writes : List MemberWrite
  phase : Option MemberPhase

/-- The committed memberships, who holds the lock of the tenant, and the transactions. -/
structure MemberStore (n : ℕ) where
  rows : List TenantMembership
  lock : Option (Fin n)
  clients : Fin n → MemberClient

inductive MemberAct (n : ℕ) where
  | start (k : Fin n) (command : MemberCommand)
  /-- The next statement of the command. -/
  | run (k : Fin n)
  /-- The command fails, and its caller goes on. -/
  | fail (k : Fin n)
  | commit (k : Fin n)
  | rollback (k : Fin n)

/-- The membership of a user. -/
def memberOf (rows : List TenantMembership) (userId : String) : Option TenantMembership :=
  KeyedRows.lookup (·.userId) userId rows

/-- Reference: `adminCount` in `assertNotLastTenantAdmin`. -/
def adminCount (rows : List TenantMembership) : ℕ := (rows.filter fun row => row.IsAdmin).length

namespace MemberStore

variable {n : ℕ} (assignableAppRoles : List (String × String)) (s : MemberStore n)

def initial (rows : List TenantMembership) : MemberStore n := ⟨rows, none, fun _ => ⟨[], none⟩⟩

def setClient (k : Fin n) (client : MemberClient) : MemberStore n :=
  { s with clients := Function.update s.clients k client }

def setPhase (k : Fin n) (phase : Option MemberPhase) : MemberStore n :=
  s.setClient k { s.clients k with phase }

/-- The memberships that a transaction sees. -/
def view (k : Fin n) : List TenantMembership := (s.clients k).writes.foldl MemberWrite.apply s.rows

/-- Another transaction has written the membership, and holds it until it ends. -/
def MemberHeld (k : Fin n) (userId : String) : Prop :=
  ∃ k', k' ≠ k ∧ ∃ w ∈ (s.clients k').writes, w.userId = userId

instance (k : Fin n) (userId : String) : Decidable (s.MemberHeld k userId) := inferInstanceAs (Decidable (∃ _, _))

/-- The end of a transaction releases its lock. -/
def finish (k : Fin n) (rows : List TenantMembership) : MemberStore n :=
  { s.setClient k ⟨[], none⟩ with rows, lock := if s.lock = some k then none else s.lock }

/-- The next statement of a command. The executor's verb reads the version of the stream and appends one above it,
so it writes what is there by then; where another transaction has come in between, it fails. Reference:
`removeMember`, `updateMemberRoles`, `assertNotLastTenantAdmin`. -/
def runCommand (k : Fin n) : MemberPhase → Option (MemberStore n)
  | .fetch command =>
    match memberOf (s.view k) command.userId with
    | none => some (s.setPhase k none)
    | some row =>
      match command.change assignableAppRoles row with
      | none => some (s.setPhase k none)
      | some change => some (s.setPhase k (some (if change.Loses row then .lock row change else .write row change)))
  | .lock row change =>
    if s.lock = none ∨ s.lock = some k then some { s.setPhase k (some (.count row change)) with lock := some k }
    else none
  | .count row change =>
    some (s.setPhase k (if adminCount (s.view k) ≤ 1 then none else some (.write row change)))
  | .write row change =>
    if s.MemberHeld k row.userId then none
    else match memberOf (s.view k) row.userId, change with
      | none, _ => some (s.setPhase k none)
      | some _, .delete => some (s.setClient k ⟨(s.clients k).writes ++ [.remove row.userId], none⟩)
      | some current, .update version roles =>
        if current.version = version then
          some (s.setClient k
            ⟨(s.clients k).writes ++ [.set { current with roles, version := current.version + 1 }], none⟩)
        else some (s.setPhase k none)

def step : MemberAct n → Option (MemberStore n)
  | .start k command => if (s.clients k).phase.isSome then none else some (s.setPhase k (some (.fetch command)))
  | .run k => (s.clients k).phase.bind (s.runCommand assignableAppRoles k)
  | .fail k => some (s.setPhase k none)
  | .commit k => if (s.clients k).phase.isSome then none else some (s.finish k (s.view k))
  | .rollback k => some (s.finish k s.rows)

/-! ## What every run maintains -/

end MemberStore

/-- The user is an admin. -/
def AdminIn (rows : List TenantMembership) (userId : String) : Prop := ∃ m, memberOf rows userId = some m ∧ m.IsAdmin

/-- A later state of a membership. -/
def TenantMembership.Later (old new : TenantMembership) : Prop :=
  old.version ≤ new.version ∧ (new.version = old.version → new = old)

namespace MemberStore

variable {n : ℕ}

/-- A removal that has not asked for the last admin deletes no admin. -/
def KeepsAdmins (s : MemberStore n) : MemberAct n → Prop
  | .run k => ∀ row, (s.clients k).phase = some (.write row .delete) → ¬row.IsAdmin →
      ∀ m, memberOf (s.view k) row.userId = some m → ¬m.IsAdmin
  | _ => True

/-- What a command has read: the membership as it is or was, and, where it loses an admin, another admin under the
lock. -/
def MemberPhaseOk (view : List TenantMembership) (locked : Prop) : MemberPhase → Prop
  | .fetch _ => True
  | .lock row change => (∀ m, memberOf view row.userId = some m → row.Later m) ∧
      ∀ version roles, change = .update version roles → version = row.version
  | .count row change => (∀ m, memberOf view row.userId = some m → row.Later m) ∧
      (∀ version roles, change = .update version roles → version = row.version) ∧ locked
  | .write row change => (∀ m, memberOf view row.userId = some m → row.Later m) ∧
      (∀ version roles, change = .update version roles → version = row.version) ∧
      (change.Loses row → locked ∧ ∃ userId, userId ≠ row.userId ∧ AdminIn view userId)

structure MemberInv (s : MemberStore n) : Prop where
  unique : (s.rows.map (·.userId)).Nodup
  exclusive : ∀ k k', k ≠ k' → ∀ w ∈ (s.clients k).writes, ∀ w' ∈ (s.clients k').writes, w.userId ≠ w'.userId
  grows : ∀ k userId m, memberOf (s.view k) userId = some m → ∃ old, memberOf s.rows userId = some old ∧ old.Later m
  /-- Without the lock a transaction takes the role from nobody. -/
  unlocked : ∀ k, s.lock ≠ some k → ∀ userId, AdminIn s.rows userId → AdminIn (s.view k) userId
  /-- With it, it leaves an admin. -/
  locked : ∀ k, s.lock = some k → (∃ userId, AdminIn s.rows userId) → ∃ userId, AdminIn (s.view k) userId
  phases : ∀ k phase, (s.clients k).phase = some phase → MemberPhaseOk (s.view k) (s.lock = some k) phase

/-! ## Rows and writes -/

end MemberStore

section
variable {rows rows' : List TenantMembership} {userId : String} {w : MemberWrite} {writes : List MemberWrite}
  {row m : TenantMembership}

theorem TenantMembership.Later.refl : row.Later row := ⟨Nat.le_refl _, fun _ => rfl⟩

theorem TenantMembership.Later.trans {a b c : TenantMembership} (h : a.Later b) (h' : b.Later c) : a.Later c := by
  refine ⟨Nat.le_trans h.1 h'.1, fun hversion => ?_⟩
  have hb := h.1
  have hc := h'.1
  have hbc := h'.2 (by omega)
  rw [hbc] at hversion ⊢
  exact h.2 hversion

theorem memberOf_put_self (h : memberOf rows row.userId = some m) :
    memberOf (KeyedRows.put (·.userId) row rows) row.userId = some row := by
  induction rows with
  | nil => cases h
  | cons r rows ih =>
    rw [memberOf, KeyedRows.lookup, List.find?_cons] at h
    rw [KeyedRows.put, List.map_cons, memberOf, KeyedRows.lookup]
    by_cases hr : r.userId = row.userId
    · rw [if_pos hr, List.find?_cons_of_pos (by simp)]
    · rw [if_neg hr, List.find?_cons_of_neg (by simpa using hr)]
      rw [decide_eq_false hr] at h
      exact ih h

theorem memberOf_put_none (h : memberOf rows row.userId = none) :
    memberOf (KeyedRows.put (·.userId) row rows) row.userId = none := by
  have hnone := KeyedRows.lookup_eq_none.1 h
  refine KeyedRows.lookup_eq_none.2 fun r hr => ?_
  rcases KeyedRows.mem_put hr with rfl | ⟨hmem, hne⟩
  · obtain ⟨x, hx, hput⟩ := List.mem_map.1 hr
    intro _
    by_cases hkey : x.userId = r.userId
    · exact hnone x hx hkey
    · rw [if_neg hkey] at hput
      exact hkey (by rw [hput])
  · exact hne

theorem memberOf_delete_self : memberOf (KeyedRows.delete (·.userId) userId rows) userId = none :=
  KeyedRows.lookup_eq_none.2 fun _ hr => (KeyedRows.mem_delete.1 hr).2

/-- A write is seen by its own user only. -/
theorem memberOf_apply_of_ne (h : w.userId ≠ userId) : memberOf (w.apply rows) userId = memberOf rows userId := by
  cases w with
  | set row => exact KeyedRows.lookup_put_of_ne h
  | remove userId' => exact KeyedRows.lookup_delete_of_ne h

theorem memberOf_foldl_of_ne (h : ∀ w ∈ writes, w.userId ≠ userId) :
    memberOf (writes.foldl MemberWrite.apply rows) userId = memberOf rows userId := by
  induction writes generalizing rows with
  | nil => rfl
  | cons w writes ih =>
    rw [List.foldl_cons, ih fun w hw => h w (.tail _ hw), memberOf_apply_of_ne (h w (.head _))]

/-- What a user's membership becomes depends on what it was. -/
theorem memberOf_apply_congr (h : memberOf rows userId = memberOf rows' userId) :
    memberOf (w.apply rows) userId = memberOf (w.apply rows') userId := by
  by_cases hw : w.userId = userId
  · cases w with
    | set row =>
      obtain rfl : row.userId = userId := hw
      cases hrow : memberOf rows row.userId with
      | none => rw [MemberWrite.apply, MemberWrite.apply, memberOf_put_none hrow, memberOf_put_none (h ▸ hrow)]
      | some m => rw [MemberWrite.apply, MemberWrite.apply, memberOf_put_self hrow, memberOf_put_self (h ▸ hrow)]
    | remove userId' =>
      obtain rfl : userId' = userId := hw
      rw [MemberWrite.apply, MemberWrite.apply, memberOf_delete_self, memberOf_delete_self]
  · rw [memberOf_apply_of_ne hw, memberOf_apply_of_ne hw, h]

theorem memberOf_foldl_congr (h : memberOf rows userId = memberOf rows' userId) :
    memberOf (writes.foldl MemberWrite.apply rows) userId = memberOf (writes.foldl MemberWrite.apply rows') userId := by
  induction writes generalizing rows rows' with
  | nil => exact h
  | cons w writes ih => exact ih (memberOf_apply_congr h)

theorem nodup_foldl (h : (rows.map (·.userId)).Nodup) :
    ((writes.foldl MemberWrite.apply rows).map (·.userId)).Nodup := by
  induction writes generalizing rows with
  | nil => exact h
  | cons w writes ih =>
    refine ih ?_
    cases w with
    | set row => exact KeyedRows.nodup_put h
    | remove userId => exact KeyedRows.nodup_delete h

/-- Two admins are admins beside any one user. -/
theorem exists_admin_of_adminCount (hnodup : (rows.map (·.userId)).Nodup) (h : 1 < adminCount rows) :
    ∃ other, other ≠ userId ∧ AdminIn rows other := by
  by_contra hnone
  have hall : ∀ m ∈ rows.filter fun row => row.IsAdmin, m.userId = userId := by
    intro m hm
    obtain ⟨hmem, hadmin⟩ := List.mem_filter.1 hm
    by_contra hne
    exact hnone ⟨m.userId, hne, m, KeyedRows.lookup_of_mem hnodup hmem, of_decide_eq_true hadmin⟩
  have hsub := hnodup.sublist ((List.filter_sublist (p := fun row : TenantMembership => row.IsAdmin)).map (·.userId))
  rw [adminCount] at h
  generalize rows.filter (fun row => row.IsAdmin) = admins at hall hsub h
  match admins, hall, hsub, h with
  | a :: b :: _, hall, hsub, _ =>
    rw [List.map_cons, List.map_cons, List.nodup_cons] at hsub
    exact hsub.1 (by rw [hall a (.head _), ← hall b (.tail _ (.head _))]; exact .head _)

end

namespace MemberStore

variable {n : ℕ} {s s' : MemberStore n} {k k' : Fin n} {phase : Option MemberPhase} {userId : String}
  {w : MemberWrite} {rows : List TenantMembership} {row : TenantMembership}

/-! ## Steps -/

theorem clients_self {client : MemberClient} : (s.setClient k client).clients k = client := Function.update_self ..

theorem clients_of_ne {client : MemberClient} (h : k' ≠ k) : (s.setClient k client).clients k' = s.clients k' :=
  Function.update_of_ne h ..

theorem writes_setPhase : ((s.setPhase k phase).clients k').writes = (s.clients k').writes := by
  by_cases hk : k' = k
  · rw [hk, setPhase, clients_self]
  · rw [setPhase, clients_of_ne hk]

theorem view_setPhase : (s.setPhase k phase).view k' = s.view k' := by
  rw [view, view, writes_setPhase]
  rfl

/-- A step of a command that writes nothing. -/
theorem MemberInv.setPhase (h : MemberInv s)
    (hok : ∀ phase', phase = some phase' → MemberPhaseOk (s.view k) (s.lock = some k) phase') :
    MemberInv (s.setPhase k phase) := by
  refine ⟨h.unique, fun k' k'' hne => ?_, fun k' => ?_, fun k' => ?_, fun k' => ?_, fun k' phase' hphase => ?_⟩
  · rw [writes_setPhase, writes_setPhase]
    exact h.exclusive k' k'' hne
  · rw [view_setPhase]
    exact h.grows k'
  · rw [view_setPhase]
    exact h.unlocked k'
  · rw [view_setPhase]
    exact h.locked k'
  · rw [view_setPhase]
    by_cases hk : k' = k
    · subst hk
      rw [MemberStore.setPhase, clients_self] at hphase
      exact hok phase' hphase
    · rw [MemberStore.setPhase, clients_of_ne hk] at hphase
      exact h.phases k' phase' hphase

/-- The lock is free, or the transaction has it. -/
theorem MemberInv.takeLock (h : MemberInv s) (hfree : s.lock = none ∨ s.lock = some k)
    {change : MemberChange} (hok : MemberPhaseOk (s.view k) (s.lock = some k) (.lock row change)) :
    MemberInv { s.setPhase k (some (.count row change)) with lock := some k } := by
  have hview {k' : Fin n} :
      ({ s.setPhase k (some (.count row change)) with lock := some k } : MemberStore n).view k' = s.view k' := by
    show (s.setPhase k (some (.count row change))).view k' = s.view k'
    exact view_setPhase
  have hother {k' : Fin n} (hk : k' ≠ k) : s.lock ≠ some k' := by
    rcases hfree with hlock | hlock
    · rw [hlock]
      exact nofun
    · rw [hlock]
      exact fun heq => hk (Option.some.inj heq).symm
  refine ⟨h.unique, fun k' k'' hne => ?_, fun k' => ?_, fun k' hlock => ?_, fun k' hlock => ?_,
    fun k' phase' hphase => ?_⟩
  · rw [writes_setPhase, writes_setPhase]
    exact h.exclusive k' k'' hne
  · rw [hview]
    exact h.grows k'
  · rw [hview]
    exact h.unlocked k' (hother fun heq => hlock (by rw [heq]))
  · obtain rfl : k = k' := Option.some.inj hlock
    rw [hview]
    rcases hfree with hnone | hmine
    · rintro ⟨userId, hadmin⟩
      exact ⟨userId, h.unlocked k (by rw [hnone]; exact nofun) userId hadmin⟩
    · exact h.locked k hmine
  · rw [hview]
    by_cases hk : k' = k
    · subst hk
      have hphase : ((s.setPhase k' (some (.count row change))).clients k').phase = some phase' := hphase
      rw [MemberStore.setPhase, clients_self] at hphase
      cases hphase
      exact ⟨hok.1, hok.2, rfl⟩
    · have hphase : ((s.setPhase k (some (.count row change))).clients k').phase = some phase' := hphase
      rw [MemberStore.setPhase, clients_of_ne hk] at hphase
      have hphases := h.phases k' phase' hphase
      cases phase' with
      | fetch command => trivial
      | lock row' change' => exact hphases
      | count row' change' => exact absurd hphases.2.2 (hother hk)
      | write row' change' =>
        exact ⟨hphases.1, hphases.2.1, fun hloses => absurd (hphases.2.2 hloses).1 (hother hk)⟩

theorem view_write : (s.setClient k ⟨(s.clients k).writes ++ [w], none⟩).view k = w.apply (s.view k) := by
  rw [view, clients_self]
  exact List.foldl_append

theorem view_setClient_of_ne {client : MemberClient} (h : k' ≠ k) : (s.setClient k client).view k' = s.view k' := by
  rw [view, clients_of_ne h]
  rfl

theorem adminIn_apply_of_ne (h : w.userId ≠ userId) :
    AdminIn (w.apply rows) userId ↔ AdminIn rows userId := by rw [AdminIn, AdminIn, memberOf_apply_of_ne h]

/-- A transaction writes a membership that no other one holds: the user stays an admin, or another admin is there
under the lock. -/
theorem MemberInv.write (h : MemberInv s) (hfree : ¬s.MemberHeld k w.userId)
    (hlater : ∀ m, memberOf (w.apply (s.view k)) w.userId = some m →
      ∃ old, memberOf (s.view k) w.userId = some old ∧ old.Later m)
    (hkeep : (AdminIn (s.view k) w.userId → AdminIn (w.apply (s.view k)) w.userId) ∨
      s.lock = some k ∧ ∃ userId, userId ≠ w.userId ∧ AdminIn (s.view k) userId) :
    MemberInv (s.setClient k ⟨(s.clients k).writes ++ [w], none⟩) := by
  refine ⟨h.unique, fun k' k'' hne => ?_, fun k' userId m hm => ?_, fun k' hlock userId hadmin => ?_,
    fun k' hlock hadmin => ?_, fun k' phase' hphase => ?_⟩
  · intro w₁ hw₁ w₂ hw₂
    by_cases hk : k' = k
    · subst hk
      rw [clients_self] at hw₁
      rw [clients_of_ne hne.symm] at hw₂
      rcases List.mem_append.1 hw₁ with hw₁ | hw₁
      · exact h.exclusive k' k'' hne w₁ hw₁ w₂ hw₂
      · rw [List.mem_singleton.1 hw₁]
        exact fun heq => hfree ⟨k'', hne.symm, w₂, hw₂, heq.symm⟩
    · rw [clients_of_ne hk] at hw₁
      by_cases hk' : k'' = k
      · subst hk'
        rw [clients_self] at hw₂
        rcases List.mem_append.1 hw₂ with hw₂ | hw₂
        · exact h.exclusive k' k'' hne w₁ hw₁ w₂ hw₂
        · rw [List.mem_singleton.1 hw₂]
          exact fun heq => hfree ⟨k', hk, w₁, hw₁, heq⟩
      · rw [clients_of_ne hk'] at hw₂
        exact h.exclusive k' k'' hne w₁ hw₁ w₂ hw₂
  · by_cases hk : k' = k
    · subst hk
      rw [view_write] at hm
      by_cases hu : w.userId = userId
      · subst hu
        obtain ⟨old, hold, hlater⟩ := hlater m hm
        obtain ⟨old', hold', hlater'⟩ := h.grows k' w.userId old hold
        exact ⟨old', hold', hlater'.trans hlater⟩
      · rw [memberOf_apply_of_ne hu] at hm
        exact h.grows k' userId m hm
    · rw [view_setClient_of_ne hk] at hm
      exact h.grows k' userId m hm
  · by_cases hk : k' = k
    · subst hk
      have hadmin := h.unlocked k' hlock userId hadmin
      rw [view_write]
      by_cases hu : w.userId = userId
      · subst hu
        exact hkeep.resolve_right (fun hl => hlock hl.1) hadmin
      · exact (adminIn_apply_of_ne hu).2 hadmin
    · rw [view_setClient_of_ne hk]
      exact h.unlocked k' hlock userId hadmin
  · by_cases hk : k' = k
    · subst hk
      rw [view_write]
      rcases hkeep with hkeep | ⟨-, other, hne, hother⟩
      · obtain ⟨userId, hin⟩ := h.locked k' hlock hadmin
        by_cases hu : w.userId = userId
        · subst hu
          exact ⟨w.userId, hkeep hin⟩
        · exact ⟨userId, (adminIn_apply_of_ne hu).2 hin⟩
      · exact ⟨other, (adminIn_apply_of_ne hne.symm).2 hother⟩
    · rw [view_setClient_of_ne hk]
      exact h.locked k' hlock hadmin
  · by_cases hk : k' = k
    · subst hk
      rw [clients_self] at hphase
      cases hphase
    · rw [clients_of_ne hk] at hphase
      rw [view_setClient_of_ne hk]
      exact h.phases k' phase' hphase

/-- What a transaction sees of a user after another one has committed. -/
theorem MemberInv.memberOf_commit (h : MemberInv s) (hk : k' ≠ k) :
    memberOf ((s.clients k').writes.foldl MemberWrite.apply (s.view k)) userId =
      memberOf (s.view k) userId ∧ memberOf (s.view k') userId = memberOf s.rows userId ∨
    memberOf ((s.clients k').writes.foldl MemberWrite.apply (s.view k)) userId = memberOf (s.view k') userId ∧
      memberOf (s.view k) userId = memberOf s.rows userId := by
  by_cases hmine : ∃ w ∈ (s.clients k).writes, w.userId = userId
  · obtain ⟨w, hw, rfl⟩ := hmine
    have hfree : ∀ w' ∈ (s.clients k').writes, w'.userId ≠ w.userId := fun w' hw' => h.exclusive k' k hk w' hw' w hw
    exact .inl ⟨memberOf_foldl_of_ne hfree, memberOf_foldl_of_ne hfree⟩
  · have hsame : memberOf (s.view k) userId = memberOf s.rows userId :=
      memberOf_foldl_of_ne fun w hw heq => hmine ⟨w, hw, heq⟩
    exact .inr ⟨memberOf_foldl_congr hsame, hsame⟩

theorem finish_self : (s.finish k rows).clients k = ⟨[], none⟩ := Function.update_self ..

theorem finish_of_ne (h : k' ≠ k) : (s.finish k rows).clients k' = s.clients k' :=
  Function.update_of_ne h ..

theorem lock_finish : (s.finish k rows).lock = some k' ↔ s.lock = some k' ∧ k' ≠ k := by
  show (if s.lock = some k then none else s.lock) = some k' ↔ _
  by_cases hlock : s.lock = some k
  · rw [if_pos hlock, hlock]
    exact ⟨nofun, fun ⟨heq, hne⟩ => absurd (Option.some.inj heq).symm hne⟩
  · rw [if_neg hlock]
    exact ⟨fun heq => ⟨heq, fun hk => hlock (hk ▸ heq)⟩, fun heq => heq.1⟩

/-- A transaction ends: `rows` are the memberships after it, which the other ones see. -/
theorem MemberInv.finish (h : MemberInv s) (hunique : (rows.map (·.userId)).Nodup) (hothers : ∀ k', k' ≠ k → ∀ userId,
      memberOf ((s.clients k').writes.foldl MemberWrite.apply rows) userId = memberOf rows userId ∧
        memberOf (s.view k') userId = memberOf s.rows userId ∨
      memberOf ((s.clients k').writes.foldl MemberWrite.apply rows) userId = memberOf (s.view k') userId ∧
        memberOf rows userId = memberOf s.rows userId)
    (hlater : ∀ userId m, memberOf rows userId = some m → ∃ old, memberOf s.rows userId = some old ∧ old.Later m)
    (hkeep : ∀ k', k' ≠ k → s.lock = some k' → ∀ userId, AdminIn s.rows userId → AdminIn rows userId) :
    MemberInv (s.finish k rows) := by
  have hself : (s.finish k rows).view k = rows := by
    rw [view, finish_self]
    rfl
  have hview {k' : Fin n} (hk : k' ≠ k) :
      (s.finish k rows).view k' = (s.clients k').writes.foldl MemberWrite.apply rows := by
    rw [view, finish_of_ne hk]
    rfl
  -- A user that the ended transaction has written is committed for the others, every other one is as before.
  have hseen {k' : Fin n} (hk : k' ≠ k) {row : TenantMembership}
      (hrow : ∀ m, memberOf (s.view k') row.userId = some m → row.Later m) :
      ∀ m, memberOf ((s.finish k rows).view k') row.userId = some m → row.Later m := by
    intro m hm
    rw [hview hk] at hm
    rcases hothers k' hk row.userId with ⟨hnew, hold⟩ | ⟨hnew, -⟩
    · rw [hnew] at hm
      obtain ⟨old, hmem, hlater⟩ := hlater row.userId m hm
      exact (hrow old (hold.trans hmem)).trans hlater
    · exact hrow m (hnew ▸ hm)
  refine ⟨hunique, fun k' k'' hne => ?_, fun k' userId m hm => ?_, fun k' hlock userId hadmin => ?_,
    fun k' hlock => ?_, fun k' phase' hphase => ?_⟩
  · by_cases hk : k' = k
    · subst hk
      rw [finish_self]
      exact nofun
    · rw [finish_of_ne hk]
      by_cases hk' : k'' = k
      · subst hk'
        rw [finish_self]
        exact fun _ _ _ hw => nomatch hw
      · rw [finish_of_ne hk']
        exact h.exclusive k' k'' hne
  · by_cases hk : k' = k
    · subst hk
      rw [hself] at hm
      exact ⟨m, hm, .refl⟩
    · rw [hview hk] at hm
      rcases hothers k' hk userId with ⟨hnew, -⟩ | ⟨hnew, hold⟩
      · exact ⟨m, hnew ▸ hm, .refl⟩
      · obtain ⟨old, hmem, hlater⟩ := h.grows k' userId m (hnew ▸ hm)
        exact ⟨old, hold.trans hmem, hlater⟩
  · by_cases hk : k' = k
    · subst hk
      rw [hself]
      exact hadmin
    · have hlock : s.lock ≠ some k' := fun heq => hlock (lock_finish.2 ⟨heq, hk⟩)
      obtain ⟨m, hm, hadmin⟩ := hadmin
      have hm : memberOf rows userId = some m := hm
      rw [hview hk]
      rcases hothers k' hk userId with ⟨hnew, -⟩ | ⟨hnew, hold⟩
      · exact ⟨m, hnew.trans hm, hadmin⟩
      · obtain ⟨m', hm', hadmin'⟩ := h.unlocked k' hlock userId ⟨m, hold.symm.trans hm, hadmin⟩
        exact ⟨m', hnew.trans hm', hadmin'⟩
  · obtain ⟨hlock, hk⟩ := lock_finish.1 hlock
    rintro ⟨userId, m, hm, hadmin⟩
    have hm : memberOf rows userId = some m := hm
    rw [hview hk]
    rcases hothers k' hk userId with ⟨hnew, -⟩ | ⟨-, hold⟩
    · exact ⟨userId, m, hnew.trans hm, hadmin⟩
    · obtain ⟨other, m', hm', hadmin'⟩ := h.locked k' hlock ⟨userId, m, hold.symm.trans hm, hadmin⟩
      rcases hothers k' hk other with ⟨hnew, hold⟩ | ⟨hnew, -⟩
      · obtain ⟨m'', hm'', hadmin''⟩ := hkeep k' hk hlock other ⟨m', hold.symm.trans hm', hadmin'⟩
        exact ⟨other, m'', hnew.trans hm'', hadmin''⟩
      · exact ⟨other, m', hnew.trans hm', hadmin'⟩
  · by_cases hk : k' = k
    · subst hk
      rw [finish_self] at hphase
      cases hphase
    · rw [finish_of_ne hk] at hphase
      have hphases := h.phases k' phase' hphase
      have hlock : s.lock = some k' → (s.finish k rows).lock = some k' := fun heq => lock_finish.2 ⟨heq, hk⟩
      cases phase' with
      | fetch command => trivial
      | lock row change => exact ⟨hseen hk hphases.1, hphases.2⟩
      | count row change => exact ⟨hseen hk hphases.1, hphases.2.1, hlock hphases.2.2⟩
      | write row change =>
        refine ⟨hseen hk hphases.1, hphases.2.1, fun hloses => ?_⟩
        obtain ⟨hmine, other, hne, m, hm, hadmin⟩ := hphases.2.2 hloses
        refine ⟨hlock hmine, other, hne, ?_⟩
        rw [hview hk]
        rcases hothers k' hk other with ⟨hnew, hold⟩ | ⟨hnew, -⟩
        · obtain ⟨m', hm', hadmin'⟩ := hkeep k' hk hmine other ⟨m, hold.symm.trans hm, hadmin⟩
          exact ⟨m', hnew.trans hm', hadmin'⟩
        · exact ⟨m, hnew.trans hm, hadmin⟩

theorem MemberInv.commit (h : MemberInv s) : MemberInv (s.finish k (s.view k)) :=
  h.finish (nodup_foldl h.unique) (fun _ hk _ => h.memberOf_commit hk) (h.grows k) fun k' hk hlock userId =>
    h.unlocked k (by rw [hlock]; exact fun heq => hk (Option.some.inj heq)) userId

theorem MemberInv.rollback (h : MemberInv s) : MemberInv (s.finish k s.rows) :=
  h.finish h.unique (fun _ _ _ => .inr ⟨rfl, rfl⟩) (fun _ m hm => ⟨m, hm, .refl⟩) fun _ _ _ _ hadmin => hadmin

variable {assignableAppRoles : List (String × String)}

theorem version_of_change {command : MemberCommand} {version : ℕ} {roles : List String}
    (h : command.change assignableAppRoles row = some (.update version roles)) : version = row.version := by
  cases command with
  | removeMember userId => cases h
  | updateMemberRoles actorRoles userId asked =>
    simp only [MemberCommand.change] at h
    split at h
    · cases h
    · split at h
      · cases h
        rfl
      · split at h
        · cases h
        · cases h
          rfl

/-- A command has read a membership: it asks for the last admin where that loses one. -/
theorem MemberInv.fetched (h : MemberInv s) {command : MemberCommand} {change : MemberChange}
    (hrow : memberOf (s.view k) command.userId = some row)
    (hchange : command.change assignableAppRoles row = some change) :
    MemberInv (s.setPhase k (some (if change.Loses row then .lock row change else .write row change))) := by
  have hlater : ∀ m, memberOf (s.view k) row.userId = some m → row.Later m := by
    intro m hm
    rw [KeyedRows.key_of_lookup hrow, hrow] at hm
    cases hm
    exact .refl
  have hpinned : ∀ version roles, change = .update version roles → version = row.version := by
    rintro version roles rfl
    exact version_of_change hchange
  refine h.setPhase fun phase' hphase => ?_
  cases hphase
  split
  · exact ⟨hlater, hpinned⟩
  · next hloses => exact ⟨hlater, hpinned, fun h => absurd h hloses⟩

/-- The executor's verb writes what the command has asked for. -/
theorem MemberInv.written (h : MemberInv s) {change : MemberChange}
    (hphase : (s.clients k).phase = some (.write row change)) (hok : KeepsAdmins s (.run k))
    (hs : s.runCommand assignableAppRoles k (.write row change) = some s') : MemberInv s' := by
  obtain ⟨hlater, hpinned, hguarded⟩ := h.phases k _ hphase
  simp only [runCommand] at hs
  split at hs
  · cases hs
  · next hfree =>
    cases hcurrent : memberOf (s.view k) row.userId with
    | none =>
      rw [hcurrent] at hs
      cases hs
      exact h.setPhase nofun
    | some current =>
      rw [hcurrent] at hs
      cases change with
      | delete =>
        cases hs
        refine h.write hfree (fun m hm => ?_) ?_
        · exact absurd (memberOf_delete_self.symm.trans hm) nofun
        · by_cases hadmin : row.IsAdmin
          · exact .inr (hguarded hadmin)
          · refine .inl fun ⟨m, hm, hin⟩ => absurd hin ?_
            exact hok row hphase hadmin m hm
      | update version roles =>
        simp only at hs
        split at hs
        · next hversion =>
          cases hs
          obtain rfl : current = row := (hlater current hcurrent).2 (hversion.trans (hpinned version roles rfl))
          have hput : memberOf (MemberWrite.apply (s.view k)
              (.set { current with roles, version := current.version + 1 })) current.userId =
              some { current with roles, version := current.version + 1 } := by
            have hrow : memberOf (s.view k) ({ current with roles, version := current.version + 1 } :
                TenantMembership).userId = some current := hcurrent
            exact memberOf_put_self hrow
          refine h.write hfree (fun m hm => ?_) ?_
          · cases hput.symm.trans hm
            refine ⟨current, hcurrent, Nat.le_succ _, fun heq => ?_⟩
            have heq : current.version + 1 = current.version := heq
            omega
          · by_cases hadmin : "TenantAdmin" ∈ roles
            · exact .inl fun _ => ⟨_, hput, hadmin⟩
            · by_cases hcurrentAdmin : current.IsAdmin
              · exact .inr (hguarded ⟨hcurrentAdmin, hadmin⟩)
              · refine .inl fun ⟨m, hm, hin⟩ => absurd hin ?_
                have hm : memberOf (s.view k) current.userId = some m := hm
                rw [hcurrent] at hm
                cases hm
                exact hcurrentAdmin
        · cases hs
          exact h.setPhase nofun

theorem MemberInv.runCommand {phase : MemberPhase} (h : MemberInv s) (hphase : (s.clients k).phase = some phase)
    (hok : KeepsAdmins s (.run k)) (hs : s.runCommand assignableAppRoles k phase = some s') : MemberInv s' := by
  cases phase with
  | fetch command =>
    simp only [MemberStore.runCommand] at hs
    cases hrow : memberOf (s.view k) command.userId with
    | none =>
      rw [hrow] at hs
      cases hs
      exact h.setPhase nofun
    | some row =>
      rw [hrow] at hs
      cases hchange : command.change assignableAppRoles row with
      | none =>
        simp only [hchange] at hs
        cases hs
        exact h.setPhase nofun
      | some change =>
        simp only [hchange] at hs
        cases hs
        exact h.fetched hrow hchange
  | lock row change =>
    simp only [MemberStore.runCommand] at hs
    split at hs
    · next hfree =>
      cases hs
      exact h.takeLock hfree (h.phases k _ hphase)
    · cases hs
  | count row change =>
    obtain ⟨hlater, hpinned, hlock⟩ := h.phases k _ hphase
    simp only [MemberStore.runCommand] at hs
    cases hs
    refine h.setPhase fun phase' hphase' => ?_
    split at hphase'
    · cases hphase'
    · next hcount =>
      cases hphase'
      refine ⟨hlater, hpinned, fun _ => ⟨hlock, ?_⟩⟩
      exact exists_admin_of_adminCount (nodup_foldl h.unique) (by omega)
  | write row change => exact h.written hphase hok hs

/-- A step keeps the invariant. -/
theorem MemberInv.step {a : MemberAct n} (h : MemberInv s) (hok : KeepsAdmins s a)
    (hs : s.step assignableAppRoles a = some s') : MemberInv s' := by
  cases a with
  | start k command =>
    simp only [MemberStore.step] at hs
    split at hs
    · cases hs
    · cases hs
      refine h.setPhase fun phase' hphase => ?_
      cases hphase
      trivial
  | run k =>
    obtain ⟨phase, hphase, hrun⟩ := Option.bind_eq_some_iff.1 hs
    exact h.runCommand hphase hok hrun
  | fail k =>
    cases hs
    exact h.setPhase nofun
  | commit k =>
    simp only [MemberStore.step] at hs
    split at hs
    · cases hs
    · cases hs
      exact h.commit
  | rollback k =>
    cases hs
    exact h.rollback

theorem memberInv_initial (h : (rows.map (·.userId)).Nodup) :
    MemberInv (.initial rows : MemberStore n) :=
  ⟨h, (fun _ _ _ _ hw => nomatch hw), fun _ _ m hm => ⟨m, hm, .refl⟩, fun _ _ _ hadmin => hadmin, nofun, nofun⟩

/-- A step leaves the tenant an admin. -/
theorem MemberInv.admin_step {a : MemberAct n} (h : MemberInv s) (hs : s.step assignableAppRoles a = some s')
    (hadmin : ∃ userId, AdminIn s.rows userId) : ∃ userId, AdminIn s'.rows userId := by
  cases a with
  | start k command =>
    simp only [MemberStore.step] at hs
    split at hs
    · cases hs
    · cases hs
      exact hadmin
  | run k =>
    have hrows : s'.rows = s.rows := by
      obtain ⟨phase, -, hrun⟩ := Option.bind_eq_some_iff.1 hs
      cases phase with
      | fetch command =>
        simp only [MemberStore.runCommand] at hrun
        repeat' split at hrun
        all_goals cases hrun; rfl
      | lock row change =>
        simp only [MemberStore.runCommand] at hrun
        split at hrun
        · cases hrun
          rfl
        · cases hrun
      | count row change =>
        cases hrun
        rfl
      | write row change =>
        simp only [MemberStore.runCommand] at hrun
        repeat' split at hrun
        all_goals cases hrun
        all_goals rfl
    rw [hrows]
    exact hadmin
  | fail k =>
    cases hs
    exact hadmin
  | commit k =>
    simp only [MemberStore.step] at hs
    split at hs
    · cases hs
    · cases hs
      by_cases hlock : s.lock = some k
      · exact h.locked k hlock hadmin
      · obtain ⟨userId, hin⟩ := hadmin
        exact ⟨userId, h.unlocked k hlock userId hin⟩
  | rollback k =>
    cases hs
    exact hadmin

end MemberStore

/-- A tenant that has an admin in a reachable state has one in every later state. -/
theorem admin_stays_of_run {n : ℕ} (assignableAppRoles : List (String × String)) (rows : List TenantMembership)
    (s s' : MemberStore n) (hrows : (rows.map (·.userId)).Nodup)
    (hr : Run (MemberStore.step assignableAppRoles) MemberStore.KeepsAdmins (.initial rows) s)
    (hr' : Run (MemberStore.step assignableAppRoles) MemberStore.KeepsAdmins s s')
    (hadmin : ∃ row ∈ s.rows, row.IsAdmin) : ∃ row ∈ s'.rows, row.IsAdmin := by
  have h := hr.invariant (MemberStore.memberInv_initial hrows) fun _ _ _ h hok hs => h.step hok hs
  obtain ⟨row, hrow, hin⟩ := hadmin
  have hstart : ∃ userId, AdminIn s.rows userId := ⟨row.userId, row, KeyedRows.lookup_of_mem h.unique hrow, hin⟩
  have hrun := hr'.invariant (I := fun s => MemberStore.MemberInv s ∧ ∃ userId, AdminIn s.rows userId) ⟨h, hstart⟩
    fun _ _ _ h hok hs => ⟨h.1.step hok hs, h.1.admin_step hs h.2⟩
  obtain ⟨-, userId, row', hrow', hin'⟩ := hrun
  exact ⟨row', KeyedRows.mem_of_lookup hrow', hin'⟩

/-! ## Two admins, and a member who becomes one -/

namespace MemberStore

/-- `KeepsAdmins`, decided. -/
def keepsAdminsB {n : ℕ} (s : MemberStore n) : MemberAct n → Bool
  | .run k => match (s.clients k).phase with
    | some (.write row .delete) => row.IsAdmin || (memberOf (s.view k) row.userId).all fun m => !decide m.IsAdmin
    | _ => true
  | _ => true

theorem keepsAdmins_of_check {n : ℕ} {s : MemberStore n} {a : MemberAct n} (h : s.keepsAdminsB a = true) :
    s.KeepsAdmins a := by
  cases a with
  | run k =>
    intro row hphase hrow m hm
    simp only [keepsAdminsB, hphase, hm, hrow] at h
    exact of_decide_eq_false (by simpa using h)
  | _ => trivial

end MemberStore

/-- Two admins give up the role one after the other, and the second one is refused. -/
def twoDemotions : List (MemberAct 2) :=
  [.start 0 (.updateMemberRoles ["system"] "ada" ["Member"]), .start 1 (.updateMemberRoles ["system"] "bob" ["Member"]),
    .run 0, .run 1, .run 0, .run 0, .run 0, .commit 0, .run 1, .run 1, .commit 1]

/-- While a removal of a member is under way, the member becomes an admin and the other admin gives up the role. -/
def staleRemoval : List (MemberAct 2) :=
  [.start 0 (.removeMember "bob"), .run 0,
    .start 1 (.updateMemberRoles ["system"] "bob" ["TenantAdmin"]), .run 1, .run 1, .commit 1,
    .start 1 (.updateMemberRoles ["system"] "ada" ["Member"]), .run 1, .run 1, .run 1, .run 1, .commit 1,
    .run 0, .commit 0]

theorem admin_stays_of_run_twoDemotions :
    ∃ s : MemberStore 2, Run (MemberStore.step []) MemberStore.KeepsAdmins
      (.initial [⟨"ada", ["TenantAdmin"], 1⟩, ⟨"bob", ["TenantAdmin"], 1⟩]) s ∧
      (s.rows.any fun row => row.version = 2) = true ∧ ∃ row ∈ s.rows, row.IsAdmin := by
  obtain ⟨s, hr, hs⟩ := exists_run_of_execOk (MemberStore.step []) MemberStore.keepsAdminsB
    (.initial [⟨"ada", ["TenantAdmin"], 1⟩, ⟨"bob", ["TenantAdmin"], 1⟩]) twoDemotions
    (fun s => s.rows.any fun row => row.version = 2) (fun _ _ => MemberStore.keepsAdmins_of_check) (by decide +kernel)
    (by decide +kernel)
  refine ⟨s, hr, hs, ?_⟩
  exact admin_stays_of_run [] [⟨"ada", ["TenantAdmin"], 1⟩, ⟨"bob", ["TenantAdmin"], 1⟩] _ s (by decide) .start hr
    ⟨_, .head _, by decide⟩

theorem stale_removal_loses_admin :
    ∃ s : MemberStore 2, Run (MemberStore.step []) (fun _ _ => True)
      (.initial [⟨"ada", ["TenantAdmin"], 1⟩, ⟨"bob", ["Member"], 1⟩]) s ∧ ¬∃ row ∈ s.rows, row.IsAdmin := by
  obtain ⟨s, hr, hs⟩ := exists_run_of_exec (MemberStore.step [])
    (.initial [⟨"ada", ["TenantAdmin"], 1⟩, ⟨"bob", ["Member"], 1⟩]) staleRemoval
    (fun s => s.rows.all fun row => !decide row.IsAdmin) (by decide +kernel)
  refine ⟨s, hr, ?_⟩
  rintro ⟨row, hrow, hadmin⟩
  have hnone := List.all_eq_true.1 hs row hrow
  simp [hadmin] at hnone

end Kumiko
