import Kumiko.Library.KeyedRows
import Kumiko.Library.Run

/-!
# Sessions and the password they were opened with

`auth-email-password/handlers/login.write.ts` and `change-password.write.ts`,
`auth-mfa/handlers/verify.write.ts` with its twin `enable-confirm-preauth.write.ts`, and
`sessions/session-callbacks.ts`. A login verifies the password against the hash it has read and, some awaits
later, inserts a session. Where every insert comes before the revoke of the change that replaced the hash, no
session outlives its password (`noSessionOutlives_of_run`), and a later one does (`not_noSessionOutlives`).
-/

namespace Kumiko

open Transition

/-! ## Users and sessions -/

/-- Reference: `USER_STATUS`. -/
inductive UserStatus where
  | active
  | restricted
  | deletionRequested
  | deleted
  deriving DecidableEq

/-- A row of the users, with how often its password was replaced, which the code does not count.
Reference: `AuthUserRow`. -/
structure AuthUserRow where
  id : String
  email : String
  passwordHash : Option String
  isDeleted : Bool
  emailVerified : Bool
  status : UserStatus
  lastActiveTenantId : Option String
  version : ℕ
  generation : ℕ

/-- Reference: `isPrincipalBlocked`. -/
def isPrincipalBlocked : UserStatus → Bool
  | .restricted | .deleted => true
  | .active | .deletionRequested => false

/-- Reference: `isPrincipalRowBlocked`. -/
def isPrincipalRowBlocked (row : AuthUserRow) : Bool := row.isDeleted || isPrincipalBlocked row.status

/-- The changes of `user:update` that the login reads. Reference: `updateWrite`. -/
structure UserChanges where
  email : Option String
  passwordHash : Option String
  lastActiveTenantId : Option String
  emailVerified : Option Bool

/-- A row after an update. The generation goes up with the hash. Reference: `updateWrite`. -/
def UserChanges.apply (changes : UserChanges) (row : AuthUserRow) : AuthUserRow :=
  { row with
    email := changes.email.getD row.email
    passwordHash := changes.passwordHash.or row.passwordHash
    lastActiveTenantId := changes.lastActiveTenantId.or row.lastActiveTenantId
    emailVerified := changes.emailVerified.getD row.emailVerified
    version := row.version + 1
    generation := row.generation + if changes.passwordHash.isSome then 1 else 0 }

/-- Whether the hook on the user entity revokes. Reference: `postSave` in `createSessionsFeature`. -/
def postSaveRevokes (isNew : Bool) (changes : UserChanges) : Bool := !isNew && changes.passwordHash.isSome

/-- A row of the sessions, with the generation of the password its login verified, which is no column.
Reference: `userSessionEntity`. -/
structure UserSession where
  sid : String
  tenantId : String
  userId : String
  createdAt : ℤ
  expiresAt : ℤ
  lastSeenAt : Option ℤ
  revokedAt : Option ℤ
  verified : ℕ
  deriving DecidableEq

/-- Unrevoked and unexpired. -/
def UserSession.Live (session : UserSession) (now : ℤ) : Prop := session.revokedAt = none ∧ now < session.expiresAt

/-- Reference: `AuthSessionCheckResult`, without the roles. -/
inductive AuthSessionCheckResult where
  | missing
  | revoked
  | expired
  | blocked
  | live

/-- What a request with a session is answered. The lookup of the user may fail, or find none.
Reference: `sessionChecker`. -/
def sessionChecker (now : ℤ) (row : Option UserSession) (expectedUserId : String)
    (userLookup : Option (Option AuthUserRow)) : AuthSessionCheckResult :=
  match row with
  | none => .missing
  | some session =>
    if session.userId ≠ expectedUserId then .missing
    else if session.revokedAt ≠ none then .revoked
    else if session.expiresAt ≤ now then .expired
    else match userLookup with
      | some (some user) => if isPrincipalRowBlocked user then .blocked else .live
      | _ => .live

/-- Reference: `LAST_SEEN_REFRESH_MS`. -/
def lastSeenRefreshMs : ℤ := 3600000

/-- Reference: `sessionChecker`, the refresh of `lastSeenAt`. -/
def UserSession.refreshLastSeen (now : ℤ) (session : UserSession) : UserSession :=
  if session.lastSeenAt.all fun seen => seen + lastSeenRefreshMs ≤ now then { session with lastSeenAt := some now }
  else session

/-- A revoked row keeps its time. Reference: the updates of `sessionRevoker`, `sessionMassRevoker` and
`sessionRevokeAllOthers`. -/
def revokeSessions (now : ℤ) (matches? : UserSession → Bool) (sessions : List UserSession) : List UserSession :=
  sessions.map fun session =>
    if matches? session && session.revokedAt.isNone then { session with revokedAt := some now } else session

/-- Reference: `deleteStaleSessionsBatch`, for the rows that the batch takes. -/
def deleteStaleSessions (cutoff : ℤ) (sids : List String) (sessions : List UserSession) : List UserSession :=
  sessions.filter fun session =>
    !(sids.contains session.sid && (decide (session.expiresAt < cutoff) || session.revokedAt.any (· < cutoff)))

/-! ## The gates of a login -/

/-- Reference: `AuthErrors`, those of a login. -/
inductive LoginError where
  | invalidCredentials
  | accountLocked (retryAfterSeconds : ℤ)
  | emailNotVerified
  | accountRestricted
  | noMembership
  | invalidChallengeToken

/-- The options of the handler, the check of a password against a hash and the lifetime of a session.
Reference: `LoginHandlerOptions`, `verifyPassword`, `SessionCallbacksOptions`. -/
structure LoginPlatform where
  strictVerification : Bool
  verifyPassword : String → String → Bool
  expiresInMs : ℤ

/-- Reference: `gateEnforceLockout`. -/
def gateEnforceLockout (now : ℤ) (lockedUntil : Option ℤ) : Except LoginError Unit :=
  match lockedUntil with
  | some lockedUntil =>
    if now < lockedUntil then .error (.accountLocked (max 1 (-((now - lockedUntil) / 1000)))) else .ok ()
  | none => .ok ()

/-- The row and its hash. A locked address that nobody has is answered like a locked account.
Reference: `gateCountUnknownUser`, `gateResolveAuthUser`. -/
def gateResolveAuthUser (now : ℤ) (unknownLockedUntil : Option ℤ) (found : Option AuthUserRow) :
    Except LoginError (AuthUserRow × String) :=
  match found with
  | some row =>
    match row.passwordHash with
    | some hash =>
      if hash ≠ "" ∧ row.isDeleted = false then .ok (row, hash)
      else do gateEnforceLockout now unknownLockedUntil; .error .invalidCredentials
    | none => do gateEnforceLockout now unknownLockedUntil; .error .invalidCredentials
  | none => do gateEnforceLockout now unknownLockedUntil; .error .invalidCredentials

/-- Reference: `gateVerifyPassword`. -/
def gateVerifyPassword (P : LoginPlatform) (hash password : String) : Except LoginError Unit :=
  if P.verifyPassword hash password then .ok () else .error .invalidCredentials

/-- Reference: `gateEnforceEmailVerified`. -/
def gateEnforceEmailVerified (P : LoginPlatform) (found : AuthUserRow) : Except LoginError Unit :=
  if P.strictVerification && !found.emailVerified then .error .emailNotVerified else .ok ()

/-- Reference: `gateEnforceAccountStatus`. -/
def gateEnforceAccountStatus (found : AuthUserRow) : Except LoginError Unit :=
  match found.status with
  | .restricted => .error .accountRestricted
  | .deletionRequested | .deleted => .error .invalidCredentials
  | .active => .ok ()

/-- Reference: the result of `resolveActiveMembership`. -/
inductive ActiveMembership where
  | active (tenantId : String)
  | principalBlocked
  | notAMember
  | tenantTeardown

/-- The candidates in their order. Reference: the loop of `gateResolveMembership`. -/
def resolveCandidates (resolve : String → ActiveMembership) : List String → Except LoginError String
  | [] => .error .noMembership
  | tenantId :: rest =>
    match resolve tenantId with
    | .active chosen => .ok chosen
    | .principalBlocked => .error .invalidCredentials
    | .notAMember | .tenantTeardown => resolveCandidates resolve rest

/-- The tenant that was active last comes first. Reference: `gateResolveMembership`. -/
def gateResolveMembership (found : AuthUserRow) (memberships : List String) (resolve : String → ActiveMembership) :
    Except LoginError String :=
  match found.lastActiveTenantId.filter memberships.contains with
  | some preferred => resolveCandidates resolve (preferred :: memberships.filter (· ≠ preferred))
  | none => resolveCandidates resolve memberships

/-- Reference: the result of `mfaStatusChecker`. -/
inductive MfaStatus where
  | notRequired
  | challenge
  | setupRequired

/-! ## Logins and changes -/

/-- The session to be created, and the generation that was verified. Reference: `SessionUser`. -/
structure LoginUser where
  id : String
  tenantId : String
  verified : ℕ

/-- Before which await a login is. -/
inductive LoginPhase where
  | found (row : Option AuthUserRow) (password : String)
  | authUser (row : AuthUserRow) (hash password : String)
  | unlocked (row : AuthUserRow) (hash password : String)
  | verified (row : AuthUserRow)
  | member (row : AuthUserRow) (tenantId : String)
  /-- The client holds a challenge token, or the setup token of a factor that he has to enrol first. -/
  | challenged (user : LoginUser)
  | passed (user : LoginUser)
  /-- The row is built and encrypted. -/
  | creating (session : UserSession)

/-- What the other stores answer a login. -/
inductive LoginInput where
  | resolveAuthUser (unknownLockedUntil : Option ℤ)
  | enforceLockout (lockedUntil : Option ℤ)
  | verifyPassword
  | resolveMembership (memberships : List String) (resolve : String → ActiveMembership)
  | enforceMfa (status : MfaStatus)
  | verifyMfa (active : ActiveMembership)
  | createSession (sid : String)

/-- The row that `sessionCreator` inserts. Reference: `sessionCreator`. -/
def sessionRow (P : LoginPlatform) (now : ℤ) (sid : String) (user : LoginUser) : UserSession where
  sid
  tenantId := user.tenantId
  userId := user.id
  createdAt := now
  expiresAt := now + P.expiresInMs
  lastSeenAt := some now
  revokedAt := none
  verified := user.verified

/-- The user behind a token, as he is now. Reference: `verify` and `enable-confirm-preauth`, after the factor is
accepted. -/
def verifyChallenged (users : List AuthUserRow) (user : LoginUser) (active : ActiveMembership) :
    Except LoginError LoginUser :=
  match KeyedRows.lookup (·.id) user.id users with
  | none => .error .invalidChallengeToken
  | some row =>
    if row.status ≠ .active then .error .invalidChallengeToken
    else match active with
      | .active _ => .ok user
      | _ => .error .invalidChallengeToken

/-- The next await of a login, or the error it ends with; none where it is not at this point.
Reference: `createLoginHandler`, `verify`, `mintSessionAndRespond`. -/
def LoginPhase.next (P : LoginPlatform) (now : ℤ) (users : List AuthUserRow) :
    LoginPhase → LoginInput → Option (Except LoginError (Option LoginPhase))
  | .found row password, .resolveAuthUser unknownLockedUntil => some do
    let (row, hash) ← gateResolveAuthUser now unknownLockedUntil row
    return some (.authUser row hash password)
  | .authUser row hash password, .enforceLockout lockedUntil => some do
    gateEnforceLockout now lockedUntil
    return some (.unlocked row hash password)
  | .unlocked row hash password, .verifyPassword => some do
    gateVerifyPassword P hash password
    gateEnforceEmailVerified P row
    gateEnforceAccountStatus row
    return some (.verified row)
  | .verified row, .resolveMembership memberships resolve => some do
    let tenantId ← gateResolveMembership row memberships resolve
    return some (.member row tenantId)
  | .member row tenantId, .enforceMfa status => some <| .ok <|
    match status with
    | .notRequired => some (.passed ⟨row.id, tenantId, row.generation⟩)
    | .challenge | .setupRequired => some (.challenged ⟨row.id, tenantId, row.generation⟩)
  | .challenged user, .verifyMfa active => some do
    let user ← verifyChallenged users user active
    return some (.passed user)
  | .passed user, .createSession sid => some (.ok (some (.creating (sessionRow P now sid user))))
  | _, _ => none

/-- The user whose password a login verifies, and its generation. -/
def LoginPhase.password : LoginPhase → Option (String × ℕ)
  | .found row _ => row.map fun row => (row.id, row.generation)
  | .authUser row _ _ | .unlocked row _ _ | .verified row | .member row _ => some (row.id, row.generation)
  | .challenged user | .passed user => some (user.id, user.verified)
  | .creating session => some (session.userId, session.verified)

/-- What a client of the database is about to do. -/
inductive ClientPhase where
  | login (phase : LoginPhase)
  /-- The password is changed by its owner, whose row is read. -/
  | changePassword (me : AuthUserRow) (oldPassword : String)
  | updateUser (id : String) (version : ℕ) (changes : UserChanges)
  /-- The change of a password is committed, and its hook is not run yet. -/
  | revoke (userId : String) (generation : ℕ)

inductive SessionAct (n : ℕ) where
  | tick (ms : ℕ)
  | startLogin (k : Fin n) (email password : String)
  | login (k : Fin n) (input : LoginInput)
  | insertSession (k : Fin n)
  | startChangePassword (k : Fin n) (userId oldPassword : String)
  /-- The old password is checked, and the new one hashed. -/
  | hashPassword (k : Fin n) (newHash : String)
  | resetPassword (k : Fin n) (userId newHash : String)
  | startUpdate (k : Fin n) (id : String) (version : ℕ) (changes : UserChanges)
  | commitUpdate (k : Fin n)
  | massRevoke (k : Fin n)
  /-- A request fails, or its client gives up. -/
  | abort (k : Fin n)
  | createUser (id email : String) (passwordHash : Option String)
  | updateUserLifecycle (id : String) (status : UserStatus)
  | logout (sid : String)
  | revokeAllOthers (userId : String) (currentSid : Option String)
  | checkSession (sid : String)
  | cleanup (cutoff : ℤ) (sids : List String)

/-- The clock, the tables, the clients, and the replaced passwords whose revoke has run. -/
structure SessionStore (n : ℕ) where
  now : ℤ
  users : List AuthUserRow
  sessions : List UserSession
  phases : Fin n → Option ClientPhase
  revoked : List (String × ℕ)

namespace SessionStore

variable {n : ℕ} (P : LoginPlatform) (s : SessionStore n)

def initial (now : ℤ) : SessionStore n := ⟨now, [], [], fun _ => none, []⟩

def setPhase (k : Fin n) (phase : Option ClientPhase) : SessionStore n :=
  { s with phases := Function.update s.phases k phase }

/-- Reference: `findForAuthQuery` by an id. -/
def userOf (id : String) : Option AuthUserRow := KeyedRows.lookup (·.id) id s.users

/-- Reference: `findForAuthQuery` by an email. -/
def userOfEmail (email : String) : Option AuthUserRow :=
  s.users.find? fun row => row.email = email ∧ row.isDeleted = false

/-- An update against the version it names, and its hook. Reference: `updateWrite`. -/
def commitUpdate (k : Fin n) (id : String) (version : ℕ) (changes : UserChanges) : SessionStore n :=
  match s.userOf id with
  | none => s.setPhase k none
  | some row =>
    if row.isDeleted = false ∧ row.version = version then
      { s.setPhase k (if postSaveRevokes false changes then some (.revoke id row.generation) else none) with
        users := KeyedRows.put (·.id) (changes.apply row) s.users }
    else s.setPhase k none

def step : SessionAct n → Option (SessionStore n)
  | .tick ms => some { s with now := s.now + ms }
  | .startLogin k email password =>
    if (s.phases k).isSome then none else some (s.setPhase k (some (.login (.found (s.userOfEmail email) password))))
  | .login k input =>
    match s.phases k with
    | some (.login phase) => (phase.next P s.now s.users input).map fun next =>
      match next with
      | .ok next => s.setPhase k (next.map .login)
      | .error _ => s.setPhase k none
    | _ => none
  | .insertSession k =>
    match s.phases k with
    | some (.login (.creating session)) =>
      if session.sid ∈ s.sessions.map (·.sid) then none
      else some { s.setPhase k none with sessions := s.sessions ++ [session] }
    | _ => none
  | .startChangePassword k userId oldPassword =>
    if (s.phases k).isSome then none
    else (s.userOf userId).map fun me => s.setPhase k (some (.changePassword me oldPassword))
  | .hashPassword k newHash =>
    match s.phases k with
    | some (.changePassword me oldPassword) =>
      if me.passwordHash.any fun hash => hash ≠ "" ∧ P.verifyPassword hash oldPassword then
        some (s.setPhase k (some (.updateUser me.id me.version ⟨none, some newHash, none, none⟩)))
      else some (s.setPhase k none)
    | _ => none
  | .resetPassword k userId newHash =>
    if (s.phases k).isSome then none
    else match s.userOf userId with
      | some me =>
        if me.isDeleted ∨ me.version < 1 then none
        else some (s.setPhase k (some (.updateUser me.id me.version ⟨none, some newHash, none, none⟩)))
      | none => none
  | .startUpdate k id version changes =>
    if (s.phases k).isSome then none else some (s.setPhase k (some (.updateUser id version changes)))
  | .commitUpdate k =>
    match s.phases k with
    | some (.updateUser id version changes) => some (s.commitUpdate k id version changes)
    | _ => none
  | .massRevoke k =>
    match s.phases k with
    | some (.revoke userId generation) =>
      some { s.setPhase k none with
        sessions := revokeSessions s.now (fun session => session.userId = userId) s.sessions
        revoked := (userId, generation) :: s.revoked }
    | _ => none
  | .abort k =>
    match s.phases k with
    | some (.revoke ..) => none
    | _ => some (s.setPhase k none)
  | .createUser id email passwordHash =>
    if id ∈ s.users.map (·.id) then none
    else some { s with
      users := s.users ++ [⟨id, email, passwordHash, false, false, .active, none, 1, 0⟩] }
  | .updateUserLifecycle id status =>
    (s.userOf id).map fun row =>
      { s with users := KeyedRows.put (·.id) { row with status, version := row.version + 1 } s.users }
  | .logout sid => some { s with sessions := revokeSessions s.now (fun session => session.sid = sid) s.sessions }
  | .revokeAllOthers userId currentSid =>
    some { s with
      sessions := revokeSessions s.now (fun session => session.userId = userId ∧ some session.sid ≠ currentSid)
        s.sessions }
  | .checkSession sid =>
    some { s with
      sessions := s.sessions.map fun session =>
        if session.sid = sid then session.refreshLastSeen s.now else session }
  | .cleanup cutoff sids =>
    if s.now < cutoff then none else some { s with sessions := deleteStaleSessions cutoff sids s.sessions }

/-! ## The property and the condition -/

/-- No login is under way. -/
def LoginsEnded : Prop := ∀ k phase, s.phases k ≠ some (.login phase)

/-- No session is live whose login verified a password that was replaced and whose revoke has run. -/
def NoSessionOutlives : Prop :=
  ∀ change ∈ s.revoked, ∀ session ∈ s.sessions,
    session.userId = change.1 → session.verified = change.2 → ¬session.Live s.now

/-- The user still has the password of a generation, or the revoke of its change is to come. -/
def BeforeRevoke (userId : String) (generation : ℕ) : Prop :=
  (∃ row ∈ s.users, row.id = userId ∧ row.generation = generation) ∨
    ∃ k, s.phases k = some (.revoke userId generation)

/-- A login inserts its session before the revoke of the change that replaced the password it verified. -/
def InsertsInTime (s : SessionStore n) : SessionAct n → Prop
  | .insertSession k => ∀ session, s.phases k = some (.login (.creating session)) →
      s.BeforeRevoke session.userId session.verified
  | _ => True

/-- A password of a user that he has no more. -/
def Replaced (userId : String) (generation : ℕ) : Prop :=
  ∃ row ∈ s.users, row.id = userId ∧ generation < row.generation

/-- What every run maintains: a replaced password has its revoke behind it or before it, once, and a login has read a
password that the user had. -/
structure PasswordInv (s : SessionStore n) : Prop where
  unique : (s.users.map (·.id)).Nodup
  pending : ∀ k userId generation, s.phases k = some (.revoke userId generation) →
    (userId, generation) ∉ s.revoked ∧ s.Replaced userId generation
  revoked : ∀ change ∈ s.revoked, s.Replaced change.1 change.2
  once : ∀ k k' userId generation, s.phases k = some (.revoke userId generation) →
    s.phases k' = some (.revoke userId generation) → k' = k
  settled : ∀ row ∈ s.users, ∀ generation < row.generation,
    (row.id, generation) ∈ s.revoked ∨ ∃ k, s.phases k = some (.revoke row.id generation)
  read : ∀ k phase password, s.phases k = some (.login phase) → phase.password = some password →
    ∃ row ∈ s.users, row.id = password.1 ∧ password.2 ≤ row.generation

/-- The sessions of a replaced password are revoked when its revoke has run. -/
def SessionsRevoked : Prop :=
  ∀ change ∈ s.revoked, ∀ session ∈ s.sessions, session.userId = change.1 → session.verified = change.2 →
    session.revokedAt ≠ none

variable {P} {s} {s' : SessionStore n} {k k' : Fin n} {userId : String} {generation : ℕ}
  {sessions : List UserSession} {phase : Option ClientPhase} {row new : AuthUserRow}

/-! ## The gates of a login keep the password it has read -/

theorem exists_of_bind_ok {α β : Type} {x : Except LoginError α} {f : α → Except LoginError β} {b : β}
    (h : x >>= f = .ok b) : ∃ a, x = .ok a ∧ f a = .ok b := by
  cases x with
  | error e => cases h
  | ok a => exact ⟨a, rfl, h⟩

/-- The gate hands on the hash of the row it has read. -/
theorem passwordHash_of_gateResolveAuthUser {now : ℤ} {unknownLockedUntil : Option ℤ} {found : Option AuthUserRow}
    {row : AuthUserRow} {hash : String} (h : gateResolveAuthUser now unknownLockedUntil found = .ok (row, hash)) :
    found = some row ∧ row.passwordHash = some hash := by
  have hlocked : ∀ lockedUntil : Option ℤ,
      (do gateEnforceLockout now lockedUntil; .error .invalidCredentials : Except LoginError (AuthUserRow × String)) ≠
        .ok (row, hash) := by
    intro lockedUntil h
    cases hgate : gateEnforceLockout now lockedUntil with
    | error e => rw [hgate] at h; cases h
    | ok _ => rw [hgate] at h; cases h
  unfold gateResolveAuthUser at h
  split at h
  · next row' =>
    split at h
    · next hash' hhash =>
      split at h
      · cases h
        exact ⟨rfl, hhash⟩
      · exact absurd h (hlocked unknownLockedUntil)
    · exact absurd h (hlocked unknownLockedUntil)
  · exact absurd h (hlocked unknownLockedUntil)

/-- A second factor leaves the user as the first step has read it. -/
theorem user_of_verifyChallenged {users : List AuthUserRow} {user user' : LoginUser} {active : ActiveMembership}
    (h : verifyChallenged users user active = .ok user') : user' = user := by
  unfold verifyChallenged at h
  split at h
  · cases h
  · split at h
    · cases h
    · split at h
      · cases h; rfl
      · cases h

/-- A login goes on with the password that it has read. -/
theorem password_next {now : ℤ} {users : List AuthUserRow} {phase phase' : LoginPhase}
    {input : LoginInput} (h : phase.next P now users input = some (.ok (some phase'))) :
    phase'.password = phase.password := by
  unfold LoginPhase.next at h
  split at h
  · obtain ⟨⟨row, hash⟩, hgate, h⟩ := exists_of_bind_ok (Option.some.inj h)
    cases h
    rw [(passwordHash_of_gateResolveAuthUser hgate).1]
    rfl
  · obtain ⟨_, _, h⟩ := exists_of_bind_ok (Option.some.inj h)
    cases h; rfl
  · obtain ⟨_, _, h⟩ := exists_of_bind_ok (Option.some.inj h)
    obtain ⟨_, _, h⟩ := exists_of_bind_ok h
    obtain ⟨_, _, h⟩ := exists_of_bind_ok h
    cases h; rfl
  · obtain ⟨_, _, h⟩ := exists_of_bind_ok (Option.some.inj h)
    cases h; rfl
  · have h := Except.ok.inj (Option.some.inj h)
    split at h <;> cases h <;> rfl
  · obtain ⟨user, huser, h⟩ := exists_of_bind_ok (Option.some.inj h)
    cases h
    rw [user_of_verifyChallenged huser]
    rfl
  · cases h; rfl
  · cases h

/-! ## What a step does to the clients and the users -/

theorem phases_self : (s.setPhase k phase).phases k = phase := Function.update_self ..

theorem phases_of_ne (h : k' ≠ k) : (s.setPhase k phase).phases k' = s.phases k' :=
  Function.update_of_ne h ..

theorem mem_of_userOf {row : AuthUserRow} (h : s.userOf userId = some row) : row ∈ s.users ∧ row.id = userId :=
  ⟨KeyedRows.mem_of_lookup h, KeyedRows.key_of_lookup h⟩

theorem mem_put_self (h : row ∈ s.users) (hid : row.id = new.id) :
    new ∈ KeyedRows.put (·.id) new s.users := List.mem_map.2 ⟨row, h, if_pos hid⟩

theorem mem_put_of_ne (h : row ∈ s.users) (hid : row.id ≠ new.id) :
    row ∈ KeyedRows.put (·.id) new s.users := List.mem_map.2 ⟨row, h, if_neg hid⟩

/-- Every user is still there, with no fewer changes of his password. -/
def UsersGrow (users users' : List AuthUserRow) : Prop :=
  ∀ row ∈ users, ∃ row' ∈ users', row'.id = row.id ∧ row.generation ≤ row'.generation

/-- A row is replaced by one of its generation or a later one. -/
theorem usersGrow_put (hunique : (s.users.map (·.id)).Nodup) (hrow : row ∈ s.users)
    (hid : row.id = new.id) (hgeneration : row.generation ≤ new.generation) :
    UsersGrow s.users (KeyedRows.put (·.id) new s.users) := by
  intro r hr
  by_cases hrid : r.id = new.id
  · have heq : r = row := List.inj_on_of_nodup_map hunique hr hrow (hrid.trans hid.symm)
    exact ⟨new, mem_put_self hrow hid, hrid.symm, heq ▸ hgeneration⟩
  · exact ⟨r, mem_put_of_ne hr hrid, rfl, Nat.le_refl _⟩

/-- A password that was replaced stays replaced. -/
theorem Replaced.grow (h : s.Replaced userId generation) (hgrow : UsersGrow s.users s'.users) :
    s'.Replaced userId generation := by
  obtain ⟨row, hrow, hid, hlt⟩ := h
  obtain ⟨row', hrow', hid', hle⟩ := hgrow row hrow
  exact ⟨row', hrow', hid'.trans hid, Nat.lt_of_lt_of_le hlt hle⟩

/-! ## The passwords over every run -/

/-- The clients other than one, and the users, are as before. -/
theorem PasswordInv.setPhase (h : PasswordInv s)
    (hold : ∀ userId generation, s.phases k ≠ some (.revoke userId generation))
    (hnew : ∀ userId generation, phase ≠ some (.revoke userId generation))
    (hread : ∀ login password, phase = some (.login login) → login.password = some password →
      ∃ row ∈ s.users, row.id = password.1 ∧ password.2 ≤ row.generation) :
    PasswordInv (s.setPhase k phase) := by
  have hrevoke : ∀ k' userId generation, (s.setPhase k phase).phases k' = some (.revoke userId generation) →
      s.phases k' = some (.revoke userId generation) := by
    intro k' userId generation hk'
    by_cases heq : k' = k
    · subst heq
      rw [phases_self] at hk'
      exact absurd hk' (hnew userId generation)
    · rwa [phases_of_ne heq] at hk'
  refine ⟨h.unique, fun k' userId generation hk' => h.pending k' userId generation (hrevoke k' userId generation hk'),
    h.revoked, fun k' k'' userId generation hk' hk'' =>
      h.once k' k'' userId generation (hrevoke k' userId generation hk') (hrevoke k'' userId generation hk''),
    fun row hrow generation hlt => ?_, fun k' login password hk' hpassword => ?_⟩
  · refine (h.settled row hrow generation hlt).imp id ?_
    rintro ⟨k', hk'⟩
    have hne : k' ≠ k := fun heq => hold _ _ (heq ▸ hk')
    exact ⟨k', (phases_of_ne hne).trans hk'⟩
  · by_cases heq : k' = k
    · subst heq
      rw [phases_self] at hk'
      exact hread login password hk' hpassword
    · rw [phases_of_ne heq] at hk'
      exact h.read k' login password hk' hpassword

/-- A client goes on to something that is neither a login nor a revoke, or ends. -/
theorem PasswordInv.setOther (h : PasswordInv s)
    (hold : ∀ userId generation, s.phases k ≠ some (.revoke userId generation))
    (hnew : ∀ userId generation, phase ≠ some (.revoke userId generation))
    (hlogin : ∀ login, phase ≠ some (.login login)) :
    PasswordInv (s.setPhase k phase) := h.setPhase hold hnew fun login _ heq => absurd heq (hlogin login)

/-- A client that has nothing to revoke may stop. -/
theorem PasswordInv.setIdle (h : PasswordInv s)
    (hold : ∀ userId generation, s.phases k ≠ some (.revoke userId generation)) : PasswordInv (s.setPhase k none) :=
  h.setOther hold (fun _ _ heq => nomatch heq) fun _ heq => nomatch heq

theorem PasswordInv.setUpdate (h : PasswordInv s) {id : String} {version : ℕ} {changes : UserChanges}
    (hold : ∀ userId generation, s.phases k ≠ some (.revoke userId generation)) :
    PasswordInv (s.setPhase k (some (.updateUser id version changes))) :=
  h.setOther hold (fun _ _ heq => nomatch heq) fun _ heq => nomatch heq

/-- An update of a row that leaves the password, and what is inserted beside it. -/
theorem PasswordInv.setUsers (h : PasswordInv s) {users : List AuthUserRow} (hunique : (users.map (·.id)).Nodup)
    (hgrow : UsersGrow s.users users)
    (hback : ∀ row ∈ users, row.generation = 0 ∨ ∃ old ∈ s.users, old.id = row.id ∧ old.generation = row.generation) :
    PasswordInv { s with users } := by
  refine ⟨hunique, fun k userId generation hk => ?_, fun change hchange => ?_, h.once,
    fun row hrow generation hlt => ?_, fun k login password hk hpassword => ?_⟩
  · obtain ⟨hnot, hreplaced⟩ := h.pending k userId generation hk
    exact ⟨hnot, hreplaced.grow hgrow⟩
  · exact (h.revoked change hchange).grow hgrow
  · rcases hback row hrow with hzero | ⟨old, hold, hid, hgeneration⟩
    · omega
    · have hsettled := h.settled old hold generation (hgeneration ▸ hlt)
      rwa [hid] at hsettled
  · obtain ⟨row, hrow, hid, hle⟩ := h.read k login password hk hpassword
    obtain ⟨row', hrow', hid', hle'⟩ := hgrow row hrow
    exact ⟨row', hrow', hid'.trans hid, Nat.le_trans hle hle'⟩

/-- Reference: `postSave`: only a replaced hash has a revoke to come. -/
theorem PasswordInv.commitUpdate (h : PasswordInv s) {version : ℕ} {changes : UserChanges}
    (hphase : s.phases k = some (.updateUser userId version changes)) :
    PasswordInv (s.commitUpdate k userId version changes) := by
  have hold : ∀ userId generation, s.phases k ≠ some (.revoke userId generation) := by
    intro userId generation hk
    rw [hphase] at hk
    cases hk
  have hidle : PasswordInv (s.setPhase k none) := h.setIdle hold
  unfold SessionStore.commitUpdate
  split
  · exact hidle
  next row hrow =>
  obtain ⟨hmem, hid⟩ := mem_of_userOf hrow
  split
  swap
  · exact hidle
  have hputs : ((KeyedRows.put (·.id) (changes.apply row) s.users).map (·.id)).Nodup :=
    KeyedRows.nodup_put h.unique
  have hgrow : UsersGrow s.users (KeyedRows.put (·.id) (changes.apply row) s.users) :=
    usersGrow_put h.unique hmem rfl (Nat.le_add_right ..)
  cases hhash : changes.passwordHash with
  | none =>
    have hsame : (changes.apply row).generation = row.generation := by simp [UserChanges.apply, hhash]
    rw [postSaveRevokes, hhash]
    refine hidle.setUsers hputs hgrow fun r hr => .inr ?_
    rcases KeyedRows.mem_put hr with rfl | ⟨hr, _⟩
    · exact ⟨row, hmem, rfl, hsame.symm⟩
    · exact ⟨r, hr, rfl, rfl⟩
  | some hash =>
    have hnext : (changes.apply row).generation = row.generation + 1 := by simp [UserChanges.apply, hhash]
    rw [postSaveRevokes, hhash]
    -- The password that is replaced now was the user's until now, so no revoke is behind or before it.
    have hcurrent : ¬s.Replaced userId row.generation := by
      rintro ⟨r, hr, hrid, hlt⟩
      rw [List.inj_on_of_nodup_map h.unique hr hmem (hrid.trans hid.symm)] at hlt
      exact Nat.lt_irrefl _ hlt
    have hphases : ∀ k' userId' generation,
        (s.setPhase k (some (.revoke userId row.generation))).phases k' = some (.revoke userId' generation) →
          k' = k ∧ userId' = userId ∧ generation = row.generation ∨
            k' ≠ k ∧ s.phases k' = some (.revoke userId' generation) := by
      intro k' userId' generation hk'
      by_cases heq : k' = k
      · subst heq
        rw [phases_self] at hk'
        cases hk'
        exact .inl ⟨rfl, rfl, rfl⟩
      · rw [phases_of_ne heq] at hk'
        exact .inr ⟨heq, hk'⟩
    refine ⟨hputs, fun k' userId' generation hk' => ?_, fun change hchange => (h.revoked change hchange).grow hgrow,
      fun k' k'' userId' generation hk' hk'' => ?_, fun r hr generation hlt => ?_,
      fun k' login password hk' hpassword => ?_⟩
    · rcases hphases k' userId' generation hk' with ⟨rfl, rfl, rfl⟩ | ⟨hne, hk'⟩
      · exact ⟨fun hrevoked => hcurrent (h.revoked _ hrevoked), changes.apply row, mem_put_self hmem rfl, hid,
          hnext ▸ Nat.lt_succ_self _⟩
      · obtain ⟨hnot, hreplaced⟩ := h.pending k' userId' generation hk'
        exact ⟨hnot, hreplaced.grow hgrow⟩
    · rcases hphases k' userId' generation hk' with ⟨rfl, rfl, rfl⟩ | ⟨_, hbefore⟩
      · rcases hphases k'' userId' row.generation hk'' with ⟨rfl, _, _⟩ | ⟨_, hbefore⟩
        · rfl
        · exact absurd (h.pending k'' _ _ hbefore).2 hcurrent
      · rcases hphases k'' userId' generation hk'' with ⟨rfl, rfl, rfl⟩ | ⟨_, hbefore'⟩
        · exact absurd (h.pending k' _ _ hbefore).2 hcurrent
        · exact h.once k' k'' userId' generation hbefore hbefore'
    · have hother : ∀ {id generation}, (∃ k', s.phases k' = some (.revoke id generation)) →
          ∃ k', (s.setPhase k (some (.revoke userId row.generation))).phases k' = some (.revoke id generation) := by
        rintro id generation ⟨k', hk'⟩
        have hne : k' ≠ k := fun heq => hold _ _ (heq ▸ hk')
        exact ⟨k', (phases_of_ne hne).trans hk'⟩
      rcases KeyedRows.mem_put hr with rfl | ⟨hr, _⟩
      · rcases Nat.lt_or_eq_of_le (Nat.lt_succ_iff.1 (hnext ▸ hlt)) with hlt | rfl
        · exact (h.settled row hmem generation hlt).imp id hother
        · exact .inr ⟨k, by rw [← hid]; exact phases_self⟩
      · exact (h.settled r hr generation hlt).imp id hother
    · by_cases heq : k' = k
      · subst heq
        have hself : (s.setPhase k' (some (.revoke userId row.generation))).phases k' =
            some (.revoke userId row.generation) := phases_self
        exact absurd (hself.symm.trans hk') (by simp)
      · obtain ⟨r, hr, hrid, hle⟩ := h.read k' login password ((phases_of_ne heq).symm.trans hk') hpassword
        obtain ⟨r', hr', hrid', hle'⟩ := hgrow r hr
        exact ⟨r', hr', hrid'.trans hrid, Nat.le_trans hle hle'⟩

/-- Reference: `sessionMassRevoker` in the hook. -/
theorem PasswordInv.massRevoke (h : PasswordInv s) (hphase : s.phases k = some (.revoke userId generation)) :
    PasswordInv { s.setPhase k none with sessions, revoked := (userId, generation) :: s.revoked } := by
  have hphases : ∀ k' phase, (s.setPhase k none).phases k' = some phase → k' ≠ k ∧ s.phases k' = some phase := by
    intro k' phase hk'
    have hne : k' ≠ k := by
      rintro rfl
      rw [phases_self] at hk'
      cases hk'
    exact ⟨hne, (phases_of_ne hne).symm.trans hk'⟩
  refine ⟨h.unique, fun k' userId' generation' hk' => ?_, fun change hchange => ?_,
    fun k' k'' userId' generation' hk' hk'' =>
      h.once k' k'' userId' generation' (hphases _ _ hk').2 (hphases _ _ hk'').2,
    fun row hrow generation' hlt => ?_, fun k' login password hk' => h.read k' login password (hphases _ _ hk').2⟩
  · obtain ⟨hne, hk'⟩ := hphases _ _ hk'
    obtain ⟨hnot, hreplaced⟩ := h.pending k' userId' generation' hk'
    refine ⟨fun hmem => ?_, hreplaced⟩
    rcases List.mem_cons.1 hmem with heq | hmem
    · cases heq
      exact hne (h.once k k' _ _ hphase hk')
    · exact hnot hmem
  · rcases List.mem_cons.1 hchange with rfl | hchange
    · exact (h.pending k _ _ hphase).2
    · exact h.revoked change hchange
  · rcases h.settled row hrow generation' hlt with hmem | ⟨k', hk'⟩
    · exact .inl (List.mem_cons_of_mem _ hmem)
    · by_cases heq : k' = k
      · subst heq
        rw [hphase] at hk'
        cases hk'
        exact .inl List.mem_cons_self
      · exact .inr ⟨k', (phases_of_ne heq).trans hk'⟩

theorem userOfEmail_mem {email : String} {row : AuthUserRow} (h : s.userOfEmail email = some row) : row ∈ s.users :=
  List.mem_of_find?_eq_some h

/-- An update that leaves the password of its row. -/
theorem PasswordInv.putUser (h : PasswordInv s) (hrow : row ∈ s.users) (hid : row.id = new.id)
    (hgeneration : row.generation = new.generation) :
    PasswordInv { s with users := KeyedRows.put (·.id) new s.users } := by
  refine h.setUsers (KeyedRows.nodup_put h.unique) (usersGrow_put h.unique hrow hid (Nat.le_of_eq hgeneration))
    fun r hr => .inr ?_
  rcases KeyedRows.mem_put hr with rfl | ⟨hr, _⟩
  · exact ⟨row, hrow, hid, hgeneration⟩
  · exact ⟨r, hr, rfl, rfl⟩

/-- A new user has a password of the first generation. -/
theorem PasswordInv.createUser (h : PasswordInv s) {row : AuthUserRow} (hid : row.id ∉ s.users.map (·.id))
    (hzero : row.generation = 0) : PasswordInv { s with users := s.users ++ [row] } := by
  refine h.setUsers ?_ (fun r hr => ⟨r, List.mem_append_left _ hr, rfl, Nat.le_refl _⟩) fun r hr => ?_
  · rw [List.map_append, List.nodup_append]
    refine ⟨h.unique, List.nodup_singleton _, fun x hx y hy heq => hid ?_⟩
    have hrow : x = row.id := heq.trans (List.mem_singleton.1 hy)
    exact hrow ▸ hx
  · rcases List.mem_append.1 hr with hr | hr
    · exact .inr ⟨r, hr, rfl, rfl⟩
    · rw [List.mem_singleton.1 hr]
      exact .inl hzero

theorem PasswordInv.setSessions (h : PasswordInv s) :
    PasswordInv { s with sessions } := ⟨h.unique, h.pending, h.revoked, h.once, h.settled, h.read⟩

/-- Every step keeps what ties passwords to their changes. -/
theorem PasswordInv.step {a : SessionAct n} (h : PasswordInv s) (hs : s.step P a = some s') : PasswordInv s' := by
  have hfree : ∀ {k}, ¬(s.phases k).isSome → ∀ userId generation, s.phases k ≠ some (.revoke userId generation) := by
    intro k hk userId generation heq
    exact hk (heq ▸ rfl)
  have hother : ∀ {k phase}, s.phases k = some phase → (∀ userId generation, phase ≠ .revoke userId generation) →
      ∀ userId generation, s.phases k ≠ some (.revoke userId generation) := by
    intro k phase hk hne userId generation heq
    exact hne userId generation (Option.some.inj (hk.symm.trans heq))
  cases a with
  | tick ms => cases hs; exact ⟨h.unique, h.pending, h.revoked, h.once, h.settled, h.read⟩
  | startLogin k email password =>
    rw [SessionStore.step] at hs
    split at hs
    · cases hs
    · next hk =>
      cases hs
      refine h.setPhase (hfree hk) (fun _ _ heq => nomatch heq) fun login password' hlogin hpassword => ?_
      cases hlogin
      obtain ⟨row, hrow, rfl⟩ := Option.map_eq_some_iff.1 hpassword
      exact ⟨row, userOfEmail_mem hrow, rfl, Nat.le_refl _⟩
  | login k input =>
    rw [SessionStore.step] at hs
    split at hs
    · next phase hk =>
      have hrevoke := hother hk fun _ _ heq => nomatch heq
      obtain ⟨next, hnext, hs⟩ := Option.map_eq_some_iff.1 hs
      cases next with
      | error e =>
        cases hs
        exact h.setIdle hrevoke
      | ok next =>
        cases hs
        cases next with
        | none => exact h.setIdle hrevoke
        | some phase' =>
          refine h.setPhase hrevoke (fun _ _ heq => nomatch heq) fun login password hlogin hpassword => ?_
          cases hlogin
          exact h.read k phase password hk ((password_next hnext).symm.trans hpassword)
    · cases hs
  | insertSession k =>
    rw [SessionStore.step] at hs
    split at hs
    · next session hk =>
      split at hs
      · cases hs
      · cases hs
        have hidle : PasswordInv (s.setPhase k none) := h.setIdle (hother hk fun _ _ heq => nomatch heq)
        exact hidle.setSessions
    · cases hs
  | startChangePassword k userId oldPassword =>
    rw [SessionStore.step] at hs
    split at hs
    · cases hs
    · next hk =>
      obtain ⟨me, _, rfl⟩ := Option.map_eq_some_iff.1 hs
      exact h.setOther (hfree hk) (fun _ _ heq => nomatch heq) fun _ heq => nomatch heq
  | hashPassword k newHash =>
    rw [SessionStore.step] at hs
    split at hs
    · next me oldPassword hk =>
      split at hs
      · cases hs; exact h.setUpdate (hother hk fun _ _ heq => nomatch heq)
      · cases hs; exact h.setIdle (hother hk fun _ _ heq => nomatch heq)
    · cases hs
  | resetPassword k userId newHash =>
    rw [SessionStore.step] at hs
    split at hs
    · cases hs
    · next hk =>
      split at hs
      · split at hs
        · cases hs
        · cases hs; exact h.setUpdate (hfree hk)
      · cases hs
  | startUpdate k id version changes =>
    rw [SessionStore.step] at hs
    split at hs
    · cases hs
    · next hk => cases hs; exact h.setUpdate (hfree hk)
  | commitUpdate k =>
    rw [SessionStore.step] at hs
    split at hs
    · next id version changes hk => cases hs; exact h.commitUpdate hk
    · cases hs
  | massRevoke k =>
    rw [SessionStore.step] at hs
    split at hs
    · next userId generation hk => cases hs; exact h.massRevoke hk
    · cases hs
  | abort k =>
    rw [SessionStore.step] at hs
    split at hs
    · cases hs
    · next hk => cases hs; exact h.setIdle hk
  | createUser id email passwordHash =>
    rw [SessionStore.step] at hs
    split at hs
    · cases hs
    · next hid =>
      cases hs
      exact h.createUser hid rfl
  | updateUserLifecycle id status =>
    obtain ⟨row, hrow, rfl⟩ := Option.map_eq_some_iff.1 hs
    exact h.putUser (mem_of_userOf hrow).1 rfl rfl
  | logout sid => cases hs; exact h.setSessions
  | revokeAllOthers userId currentSid =>
    cases hs; exact h.setSessions
  | checkSession sid => cases hs; exact h.setSessions
  | cleanup cutoff sids =>
    rw [SessionStore.step] at hs
    split at hs
    · cases hs
    · cases hs; exact h.setSessions

/-- Nobody has changed a password. -/
theorem passwordInv_initial {now : ℤ} : PasswordInv (initial (n := n) now) :=
  ⟨List.nodup_nil, fun _ _ _ hk => (nomatch hk), fun _ hc => (nomatch hc), fun _ _ _ _ hk => (nomatch hk),
    fun _ hrow => (nomatch hrow), fun _ _ _ hk => (nomatch hk)⟩

/-! ## The sessions over every run whose inserts are in time -/

/-- A password is before its revoke just where its revoke has not run. -/
theorem PasswordInv.beforeRevoke_iff (h : PasswordInv s) {password : String × ℕ}
    (hread : ∃ row ∈ s.users, row.id = password.1 ∧ password.2 ≤ row.generation) :
    s.BeforeRevoke password.1 password.2 ↔ password ∉ s.revoked := by
  constructor
  · rintro (⟨row, hrow, hid, hgeneration⟩ | ⟨k, hk⟩) hmem
    · obtain ⟨r, hr, hrid, hlt⟩ := h.revoked _ hmem
      have heq : r = row := List.inj_on_of_nodup_map h.unique hr hrow (hrid.trans hid.symm)
      rw [heq, hgeneration] at hlt
      exact Nat.lt_irrefl _ hlt
    · exact (h.pending k _ _ hk).1 hmem
  · intro hnot
    obtain ⟨row, hrow, hid, hle⟩ := hread
    rcases Nat.lt_or_eq_of_le hle with hlt | heq
    · rcases h.settled row hrow _ hlt with hmem | ⟨k, hk⟩
      · rw [hid] at hmem
        exact absurd hmem hnot
      · exact .inr ⟨k, by rw [← hid]; exact hk⟩
    · exact .inl ⟨row, hrow, hid, heq.symm⟩

/-- A revoke keeps whose session it is and what it was verified with. -/
theorem mem_revokeSessions {now : ℤ} {matches? : UserSession → Bool}
    {session : UserSession} (h : session ∈ revokeSessions now matches? sessions) :
    ∃ old ∈ sessions, session.userId = old.userId ∧ session.verified = old.verified ∧
      (session.revokedAt = none → old.revokedAt = none ∧ matches? old = false) := by
  obtain ⟨old, hold, rfl⟩ := List.mem_map.1 h
  refine ⟨old, hold, ?_⟩
  split
  · exact ⟨rfl, rfl, fun hnone => nomatch hnone⟩
  · next hnot =>
    refine ⟨rfl, rfl, fun hnone => ⟨hnone, ?_⟩⟩
    rw [hnone, Option.isNone_none, Bool.and_true] at hnot
    exact Bool.eq_false_iff.2 hnot

theorem refreshLastSeen_eq {now : ℤ} {session : UserSession} :
    (session.refreshLastSeen now).userId = session.userId ∧
      (session.refreshLastSeen now).verified = session.verified ∧
      (session.refreshLastSeen now).revokedAt = session.revokedAt := by
  unfold UserSession.refreshLastSeen
  split <;> exact ⟨rfl, rfl, rfl⟩

/-- Sessions that are each an old one, revoked if that was. -/
theorem SessionsRevoked.of_sessions (h : s.SessionsRevoked)
    (hback : ∀ session ∈ sessions, ∃ old ∈ s.sessions, session.userId = old.userId ∧
      session.verified = old.verified ∧ (session.revokedAt = none → old.revokedAt = none)) :
    SessionsRevoked { s with sessions } := by
  intro change hchange session hsession huser hverified hnone
  obtain ⟨old, hold, huser', hverified', hrevoked⟩ := hback session hsession
  exact h change hchange old hold (huser'.symm.trans huser) (hverified'.symm.trans hverified) (hrevoked hnone)

theorem SessionsRevoked.revokeSessions (h : s.SessionsRevoked) {matches? : UserSession → Bool} :
    SessionsRevoked { s with sessions := revokeSessions s.now matches? s.sessions } := by
  refine h.of_sessions fun session hsession => ?_
  obtain ⟨old, hold, huser, hverified, hnone⟩ := mem_revokeSessions hsession
  exact ⟨old, hold, huser, hverified, fun hs => (hnone hs).1⟩

/-- The revoke of a change ends the sessions of the passwords before it. -/
theorem SessionsRevoked.massRevoke (h : s.SessionsRevoked) {phases : Fin n → Option ClientPhase} :
    SessionsRevoked { s with
      phases
      sessions := Kumiko.revokeSessions s.now (fun session => session.userId = userId) s.sessions
      revoked := (userId, generation) :: s.revoked } := by
  intro change hchange session hsession huser hverified hnone
  obtain ⟨old, hold, huser', hverified', hback⟩ := mem_revokeSessions hsession
  obtain ⟨hnone', hother⟩ := hback hnone
  rcases List.mem_cons.1 hchange with rfl | hchange
  · exact of_decide_eq_false hother (huser'.symm.trans huser)
  · exact h change hchange old hold (huser'.symm.trans huser) (hverified'.symm.trans hverified) hnone'

/-- A session is inserted before the revoke of its password's change. -/
theorem SessionsRevoked.insertSession (h : s.SessionsRevoked) {session : UserSession}
    {phases : Fin n → Option ClientPhase} (hnot : (session.userId, session.verified) ∉ s.revoked) :
    SessionsRevoked { s with phases, sessions := s.sessions ++ [session] } := by
  intro change hchange inserted hinserted huser hverified
  rcases List.mem_append.1 hinserted with hold | hnew
  · exact h change hchange inserted hold huser hverified
  · rw [List.mem_singleton.1 hnew] at huser hverified
    rw [huser, hverified] at hnot
    exact absurd hchange hnot

/-- A step that inserts in time leaves no session of a revoked password. -/
theorem SessionsRevoked.step {a : SessionAct n} (h : s.SessionsRevoked) (hinv : PasswordInv s)
    (hok : s.InsertsInTime a) (hs : s.step P a = some s') : s'.SessionsRevoked := by
  cases a with
  | tick ms => cases hs; exact h
  | startLogin k email password =>
    rw [SessionStore.step] at hs
    split at hs
    · cases hs
    · cases hs; exact h
  | login k input =>
    rw [SessionStore.step] at hs
    split at hs
    · obtain ⟨next, _, hs⟩ := Option.map_eq_some_iff.1 hs
      cases next with
      | error e => cases hs; exact h
      | ok next => cases hs; exact h
    · cases hs
  | insertSession k =>
    rw [SessionStore.step] at hs
    split at hs
    · next session hk =>
      split at hs
      · cases hs
      · cases hs
        have hread := hinv.read k _ (session.userId, session.verified) hk rfl
        exact h.insertSession ((hinv.beforeRevoke_iff hread).1 (hok session hk))
    · cases hs
  | startChangePassword k userId oldPassword =>
    rw [SessionStore.step] at hs
    split at hs
    · cases hs
    · obtain ⟨me, _, rfl⟩ := Option.map_eq_some_iff.1 hs
      exact h
  | hashPassword k newHash =>
    rw [SessionStore.step] at hs
    split at hs
    · split at hs
      · cases hs; exact h
      · cases hs; exact h
    · cases hs
  | resetPassword k userId newHash =>
    rw [SessionStore.step] at hs
    split at hs
    · cases hs
    · split at hs
      · split at hs
        · cases hs
        · cases hs; exact h
      · cases hs
  | startUpdate k id version changes =>
    rw [SessionStore.step] at hs
    split at hs
    · cases hs
    · cases hs; exact h
  | commitUpdate k =>
    rw [SessionStore.step] at hs
    split at hs
    · cases hs
      unfold SessionStore.commitUpdate
      split
      · exact h
      · split
        · exact h
        · exact h
    · cases hs
  | massRevoke k =>
    rw [SessionStore.step] at hs
    split at hs
    · cases hs; exact h.massRevoke
    · cases hs
  | abort k =>
    rw [SessionStore.step] at hs
    split at hs
    · cases hs
    · cases hs; exact h
  | createUser id email passwordHash =>
    rw [SessionStore.step] at hs
    split at hs
    · cases hs
    · cases hs; exact h
  | updateUserLifecycle id status =>
    obtain ⟨row, _, rfl⟩ := Option.map_eq_some_iff.1 hs
    exact h
  | logout sid => cases hs; exact h.revokeSessions
  | revokeAllOthers userId currentSid => cases hs; exact h.revokeSessions
  | checkSession sid =>
    cases hs
    refine h.of_sessions fun session hsession => ?_
    obtain ⟨old, hold, rfl⟩ := List.mem_map.1 hsession
    refine ⟨old, hold, ?_⟩
    split
    · exact ⟨refreshLastSeen_eq.1, refreshLastSeen_eq.2.1, fun hnone => refreshLastSeen_eq.2.2 ▸ hnone⟩
    · exact ⟨rfl, rfl, id⟩
  | cleanup cutoff sids =>
    rw [SessionStore.step] at hs
    split at hs
    · cases hs
    · cases hs
      exact h.of_sessions fun session hsession => ⟨session, List.mem_of_mem_filter hsession, rfl, rfl, id⟩

/-- Where every login inserts its session before the revoke of the change that replaced the password it verified, no
session outlives its password. -/
theorem noSessionOutlives_of_run {now : ℤ} (hr : Run (SessionStore.step P) InsertsInTime (initial (n := n) now) s) :
    s.NoSessionOutlives := by
  have hinv : PasswordInv s ∧ s.SessionsRevoked := by
    refine hr.invariant (I := fun s => PasswordInv s ∧ s.SessionsRevoked)
      ⟨passwordInv_initial, fun change hchange => (nomatch hchange)⟩ ?_
    rintro s a s' ⟨hpassword, hsessions⟩ hok hs
    exact ⟨hpassword.step hs, hsessions.step hpassword hok hs⟩
  intro change hchange session hsession huser hverified hlive
  exact hinv.2 change hchange session hsession huser hverified hlive.1

/-! ## Runs -/

/-- The condition, evaluated. -/
def insertsInTimeB (s : SessionStore n) : SessionAct n → Bool
  | .insertSession k => match s.phases k with
    | some (.login (.creating session)) =>
      s.users.any (fun row => row.id = session.userId ∧ row.generation = session.verified) ||
        (List.finRange n).any fun k => match s.phases k with
          | some (.revoke userId generation) => userId = session.userId ∧ generation = session.verified
          | _ => false
    | _ => true
  | _ => true

theorem insertsInTime_of_check {a : SessionAct n} (h : s.insertsInTimeB a = true) : s.InsertsInTime a := by
  cases a with
  | insertSession k =>
    intro session hphase
    rw [insertsInTimeB, hphase] at h
    rcases Bool.or_eq_true_iff.1 h with h | h
    · obtain ⟨row, hrow, heq⟩ := List.any_eq_true.1 h
      exact .inl ⟨row, hrow, of_decide_eq_true heq⟩
    · obtain ⟨k', _, heq⟩ := List.any_eq_true.1 h
      split at heq
      · next userId generation hk' =>
        have hsame : userId = session.userId ∧ generation = session.verified := of_decide_eq_true heq
        rw [← hsame.1, ← hsame.2]
        exact .inr ⟨k', hk'⟩
      · cases heq
  | _ => trivial

end SessionStore

/-- A hash opens with its own password. -/
def sampleLogins : LoginPlatform where
  strictVerification := false
  verifyPassword hash password := hash = "hash of " ++ password
  expiresInMs := 1000

namespace SessionStore

/-- A login up to the row that it will insert. -/
def loginActs (k : Fin 2) (password sid : String) : List (SessionAct 2) :=
  [.startLogin k "a@x" password, .login k (.resolveAuthUser none), .login k (.enforceLockout none),
    .login k .verifyPassword, .login k (.resolveMembership ["t"] fun tenantId => .active tenantId),
    .login k (.enforceMfa .notRequired), .login k (.createSession sid)]

/-- A change of the password with its revoke. -/
def changeActs (k : Fin 2) (oldPassword newHash : String) : List (SessionAct 2) :=
  [.startChangePassword k "u" oldPassword, .hashPassword k newHash, .commitUpdate k, .massRevoke k]

/-- A session of the old password is revoked by the change, one of the new password is not. -/
theorem noSessionOutlives_of_run_change : ∃ s : SessionStore 2,
    (s.revoked = [("u", 0)] ∧
      s.sessions.map (fun session => (session.sid, session.revokedAt)) = [("s1", some 0), ("s2", none)]) ∧
      s.NoSessionOutlives := by
  obtain ⟨s, hr, hs⟩ := exists_run_of_execOk (SessionStore.step sampleLogins) insertsInTimeB (initial 0)
    ([.createUser "u" "a@x" (some "hash of old")] ++ loginActs 0 "old" "s1" ++ [.insertSession 0] ++
      changeActs 1 "old" "hash of new" ++ loginActs 0 "new" "s2" ++ [.insertSession 0])
    (fun s => decide (s.revoked = [("u", 0)] ∧
      s.sessions.map (fun session => (session.sid, session.revokedAt)) = [("s1", some 0), ("s2", none)]))
    (fun s a h => insertsInTime_of_check h) (by decide +kernel) (by decide +kernel)
  exact ⟨s, of_decide_eq_true hs, noSessionOutlives_of_run hr⟩

/-- A login that verified the old password before the change inserts its session after the revoke. -/
theorem not_noSessionOutlives : ¬∀ s : SessionStore 2,
    Run (SessionStore.step sampleLogins) (fun _ _ => True) (initial 0) s → s.LoginsEnded → s.NoSessionOutlives := by
  intro h
  obtain ⟨s, hr, hs⟩ := exists_run_of_exec (SessionStore.step sampleLogins) (initial 0)
    ([.createUser "u" "a@x" (some "hash of old")] ++ loginActs 0 "old" "s1" ++ changeActs 1 "old" "hash of new" ++
      [.insertSession 0])
    (fun s => decide ((s.phases 0).isNone = true ∧ (s.phases 1).isNone = true ∧ s.now = 0 ∧ s.revoked = [("u", 0)] ∧
      s.sessions = [⟨"s1", "t", "u", 0, 1000, some 0, none, 0⟩])) (by decide +kernel)
  obtain ⟨hfirst, hsecond, hnow, hrevoked, hsessions⟩ := of_decide_eq_true hs
  have hended : s.LoginsEnded := by
    intro k phase hk
    match k with
    | 0 => rw [hk] at hfirst; cases hfirst
    | 1 => rw [hk] at hsecond; cases hsecond
  refine h s hr hended ("u", 0) (hrevoked ▸ List.mem_singleton.2 rfl) ⟨"s1", "t", "u", 0, 1000, some 0, none, 0⟩
    (hsessions ▸ List.mem_singleton.2 rfl) rfl rfl ⟨rfl, ?_⟩
  rw [hnow]
  decide

end SessionStore

end Kumiko
