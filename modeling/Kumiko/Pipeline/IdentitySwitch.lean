import Mathlib.Data.List.Nodup
import Mathlib.Data.List.Perm.Subperm

/-!
# Identity switches and their gates

`ctx.dispatch.queryAs` and `writeAs` run another handler as a named user (`system-identity-switch.ts`), behind a
gate that remembers who called and whether a grant lets the call switch freely. Without one the named user must
be contained in the caller (`isSelfDelegation`). A hook gets the gates rebuilt under its own escape hatch. Audit
reports change no outcome and are left out.
-/

namespace Kumiko

/-! ## Escape hatches -/

/-- Reference: `ESCAPE_HATCH_GRANTS`. -/
inductive EscapeHatchGrant where
  | systemIdentity
  | globalWrites
  | unsafeRaw
  | crossTenantReads
  deriving DecidableEq

/-- Reference: `EscapeHatchDeclaration`; absent `grants` means all of them. -/
structure EscapeHatchDeclaration where
  reason : String
  grants : Option (List EscapeHatchGrant)
  deriving DecidableEq

/-- Reference: `escapeHatchAllows`. -/
def escapeHatchAllows : Option EscapeHatchDeclaration → EscapeHatchGrant → Bool
  | none, _ => false
  | some declaration, grant =>
    match declaration.grants with
    | none => true
    | some grants => grants.contains grant

/-- Reference: `escapeHatchFor`. -/
def escapeHatchFor (declaration : Option EscapeHatchDeclaration) (grant : EscapeHatchGrant) :
    Option EscapeHatchDeclaration :=
  if escapeHatchAllows declaration grant then declaration else none

/-- Raw access reads everything anyway, so it implies the read-only grant. Reference:
`crossTenantReadsGrantFor`. -/
def crossTenantReadsGrantFor (declaration : Option EscapeHatchDeclaration) : Option EscapeHatchDeclaration :=
  if escapeHatchAllows declaration .crossTenantReads || escapeHatchAllows declaration .unsafeRaw then
    declaration
  else
    none

/-- Whether a declaration unlocks a grant. -/
def declaresGrant (declaration : Option EscapeHatchDeclaration) : EscapeHatchGrant → Bool
  | .crossTenantReads => (crossTenantReadsGrantFor declaration).isSome
  | grant => escapeHatchAllows declaration grant

/-- What `String.prototype.trim` removes. -/
def isTrimmedByJs (c : Char) : Bool :=
  c.toNat ∈ [0x9, 0xA, 0xB, 0xC, 0xD, 0x20, 0xA0, 0x1680, 0x2028, 0x2029, 0x202F, 0x205F, 0x3000, 0xFEFF] ||
    (0x2000 ≤ c.toNat && c.toNat ≤ 0x200A)

/-- A grant is only real when its reason is not blank. Reference: `hasGrant`. -/
def hasGrant : Option EscapeHatchDeclaration → Bool
  | none => false
  | some decl => decl.reason.toList.any (!isTrimmedByJs ·)

theorem escapeHatchFor_isSome {declaration : Option EscapeHatchDeclaration} {grant : EscapeHatchGrant} :
    (escapeHatchFor declaration grant).isSome = escapeHatchAllows declaration grant := by
  cases declaration with
  | none => simp [escapeHatchFor, escapeHatchAllows]
  | some d => simp only [escapeHatchFor]; split <;> simp_all

/-- A real grant was declared. -/
theorem escapeHatchAllows_of_hasGrant {declaration : Option EscapeHatchDeclaration} {grant : EscapeHatchGrant}
    (h : hasGrant (escapeHatchFor declaration grant) = true) : escapeHatchAllows declaration grant = true := by
  rw [← escapeHatchFor_isSome]
  cases hd : escapeHatchFor declaration grant with
  | none => simp [hd, hasGrant] at h
  | some _ => rfl

/-! ## Identities -/

section

variable {V : Type*}

/-- The claims of a session: own keys with their values, no key twice. Reference: `SessionUser.claims`. -/
structure SessionClaims (V : Type*) where
  entries : List (String × V)
  nodup : (entries.map Prod.fst).Nodup
  deriving DecidableEq

namespace SessionClaims

/-- The empty object `?? {}` puts in place of absent claims. -/
def empty : SessionClaims V := ⟨[], List.nodup_nil⟩

/-- The value of an own key. -/
def get? (claims : SessionClaims V) (key : String) : Option V := claims.entries.lookup key

end SessionClaims

/-- The fields of `SessionUser` that an identity switch looks at. Reference: `SessionUser`. -/
structure DispatchUser (V : Type*) where
  id : String
  tenantId : String
  roles : List String
  claims : Option (SessionClaims V)
  origin : Option String
  deriving DecidableEq

namespace DispatchUser

/-- The claims, with `{}` for absent ones. -/
def ownClaims (user : DispatchUser V) : SessionClaims V := user.claims.getD .empty

end DispatchUser

/-- Reference: `SYSTEM_USER_ID`. -/
def systemUserId : String := "00000000-0000-0000-0000-000000000000"

/-- Reference: `SYSTEM_ROLE`. -/
def systemRole : String := "system"

/-- Reference: `isSystemIdentity`. -/
def isSystemIdentity (user : DispatchUser V) : Bool :=
  user.id == systemUserId || user.roles.contains systemRole

/-- Reference: `isMemberResolutionPrincipal`. -/
def isMemberResolutionPrincipal (user : DispatchUser V) : Bool := user.origin == some "member-resolution"

/-- What containment means: the same user, tenant, origin and claims, and no further role. -/
structure Contained (caller asUser : DispatchUser V) : Prop where
  id : asUser.id = caller.id
  tenantId : asUser.tenantId = caller.tenantId
  origin : asUser.origin = caller.origin
  roles : asUser.roles ⊆ caller.roles
  claims : ∀ key, asUser.ownClaims.get? key = caller.ownClaims.get? key

theorem Contained.refl (user : DispatchUser V) : Contained user user :=
  ⟨rfl, rfl, rfl, List.Subset.refl _, fun _ => rfl⟩

/-- Containment composes along a chain of switches. -/
theorem Contained.trans {a b c : DispatchUser V} (hab : Contained a b) (hbc : Contained b c) :
    Contained a c where
  id := hbc.id.trans hab.id
  tenantId := hbc.tenantId.trans hab.tenantId
  origin := hbc.origin.trans hab.origin
  roles := List.Subset.trans hbc.roles hab.roles
  claims key := (hbc.claims key).trans (hab.claims key)

variable [DecidableEq V]

/-- Claims are compared by content; the reference test in front is a shortcut. Reference: `hasSameClaims`. -/
def hasSameClaims (caller asUser : DispatchUser V) : Bool :=
  caller.ownClaims.entries.length == asUser.ownClaims.entries.length &&
    caller.ownClaims.entries.all fun entry => asUser.ownClaims.get? entry.1 == some entry.2

/-- Reference: `isSelfDelegation`. -/
def isSelfDelegation (caller asUser : DispatchUser V) : Bool :=
  asUser.id == caller.id && asUser.tenantId == caller.tenantId && asUser.origin == caller.origin &&
    asUser.roles.all (caller.roles.contains ·) && hasSameClaims caller asUser

/-- Reference: `isIdentitySwitchAllowed`. -/
def isIdentitySwitchAllowed (caller : Option (DispatchUser V)) (asUser : DispatchUser V) (hasGrant : Bool) :
    Bool :=
  if hasGrant then true
  else if isSystemIdentity asUser then false
  else
    match caller with
    | none => false
    | some caller => isSelfDelegation caller asUser

omit [DecidableEq V] in
private theorem lookup_of_mem_nodup : ∀ {entries : List (String × V)} {key : String} {value : V},
    (entries.map Prod.fst).Nodup → (key, value) ∈ entries → entries.lookup key = some value
  | (k, v) :: entries, key, value, hnodup, hmem => by
    rw [List.map_cons, List.nodup_cons] at hnodup
    rcases List.mem_cons.1 hmem with heq | htail
    · cases heq; simp
    · have hne : key ≠ k := by
        rintro rfl
        exact hnodup.1 (List.mem_map.2 ⟨_, htail, rfl⟩)
      rw [List.lookup_cons, beq_false_of_ne hne]
      exact lookup_of_mem_nodup hnodup.2 htail

omit [DecidableEq V] in
private theorem mem_of_lookup_some : ∀ {entries : List (String × V)} {key : String} {value : V},
    entries.lookup key = some value → (key, value) ∈ entries
  | (k, v) :: entries, key, value, h => by
    rw [List.lookup_cons] at h
    split at h
    · next heq => cases h; rw [eq_of_beq heq]; exact List.mem_cons_self
    · exact List.mem_cons_of_mem _ (mem_of_lookup_some h)

/-- Two claim objects of one size, one of which has every entry of the other, agree on every key. -/
theorem get?_eq_of_hasSameClaims {caller asUser : DispatchUser V} (h : hasSameClaims caller asUser = true)
    (key : String) : asUser.ownClaims.get? key = caller.ownClaims.get? key := by
  simp only [hasSameClaims, Bool.and_eq_true, beq_iff_eq, List.all_eq_true] at h
  obtain ⟨hlen, hall⟩ := h
  have hsub : caller.ownClaims.entries ⊆ asUser.ownClaims.entries := by
    intro entry hentry
    exact mem_of_lookup_some (hall entry hentry)
  -- no key twice, so the callee's entries are exactly the caller's
  have hperm : caller.ownClaims.entries.Perm asUser.ownClaims.entries :=
    (List.subperm_of_subset (List.Nodup.of_map _ caller.ownClaims.nodup) hsub).perm_of_length_le
      (Nat.le_of_eq hlen.symm)
  cases hc : caller.ownClaims.get? key with
  | some value =>
    have hmem := mem_of_lookup_some hc
    exact lookup_of_mem_nodup asUser.ownClaims.nodup (hsub hmem)
  | none =>
    cases ha : asUser.ownClaims.get? key with
    | none => rfl
    | some value =>
      have hmem := hperm.symm.subset (mem_of_lookup_some ha)
      have hsome : caller.ownClaims.get? key = some value := lookup_of_mem_nodup caller.ownClaims.nodup hmem
      rw [hc] at hsome
      cases hsome

theorem contained_of_isSelfDelegation {caller asUser : DispatchUser V}
    (h : isSelfDelegation caller asUser = true) : Contained caller asUser := by
  simp only [isSelfDelegation, Bool.and_eq_true, beq_iff_eq, List.all_eq_true] at h
  obtain ⟨⟨⟨⟨hid, htenant⟩, horigin⟩, hroles⟩, hclaims⟩ := h
  exact ⟨hid, htenant, horigin, fun role hrole => by simpa using hroles role hrole,
    get?_eq_of_hasSameClaims hclaims⟩

/-- Without a grant, who passes is contained in the caller. -/
theorem contained_of_isIdentitySwitchAllowed {caller : Option (DispatchUser V)} {asUser : DispatchUser V}
    (h : isIdentitySwitchAllowed caller asUser false = true) :
    ∃ user, caller = some user ∧ Contained user asUser := by
  unfold isIdentitySwitchAllowed at h
  simp only [Bool.false_eq_true, if_false] at h
  split at h
  · cases h
  · cases caller with
    | none => cases h
    | some user => exact ⟨user, rfl, contained_of_isSelfDelegation h⟩

/-! ## Gated functions -/

/-- What a surface of the context throws: an `AccessDeniedError` with its message and `details.reason`, or an
`InternalError`. -/
inductive SurfaceDenied where
  | accessDenied (message reason : String)
  | internal (message : String)

/-- Reference: `systemIdentitySwitchDenied`. -/
def systemIdentitySwitchDenied (callerLabel : String) : SurfaceDenied :=
  .accessDenied (callerLabel ++ " may not switch identity to SYSTEM — declare r.systemScope() or " ++
    "escapeHatch: \x7b reason \x7d on it") "system_identity_switch_denied"

omit [DecidableEq V] in
/-- Reference: `identitySwitchDenied`. -/
def identitySwitchDenied (callerLabel : String) (asUser : DispatchUser V) : SurfaceDenied :=
  if isSystemIdentity asUser then systemIdentitySwitchDenied callerLabel
  else
    .accessDenied (callerLabel ++ " may only switch identity to its own caller (same user, tenant, claims and " ++
      "a subset of its roles) — declare r.systemScope() or escapeHatch: \x7b reason \x7d on it")
      "identity_switch_denied"

/-- Reference: `unsafeAllTenantsDenied`. -/
def unsafeAllTenantsDenied (callerLabel : String) : SurfaceDenied :=
  .accessDenied (callerLabel ++ " may not call ctx.dispatch.queryProjection(..., \x7b unsafeAllTenants: true \x7d) " ++
    "— declare r.systemScope() or escapeHatch: \x7b reason \x7d on it") "unsafe_all_tenants_denied"

/-- Reference: `memberResolutionReadOnlyDenied`. -/
def memberResolutionReadOnlyDenied : SurfaceDenied :=
  .accessDenied
    "a resolved member principal (ctx.dispatch.queryAsMember) cannot write or reach raw SQL — read-only"
    "member_resolution_read_only"

/-- Reference: `beforeTransactionDenied`. -/
def beforeTransactionDenied (surface : String) : SurfaceDenied :=
  .internal ("ctx." ++ surface ++ " is not available before the transaction; move it into the handler")

/-- A function no gate stands in front of: it executes the call, or it is a stub that throws. -/
inductive Ungated where
  | dispatch
  | throws (error : SurfaceDenied)

/-- A call of an ungated function, with what it executes. -/
def Ungated.call {α : Type*} : Ungated → α → Except SurfaceDenied α
  | .dispatch, x => .ok x
  | .throws error, _ => .error error

/-- What `createGatedIdentitySwitch` closes over, as `sourceByGated` gives it back. Reference:
`GatedIdentitySwitchSource`. -/
structure IdentityGate (V : Type*) where
  callerLabel : String
  caller : Option (DispatchUser V)
  hasGrant : Bool
  ungated : Ungated

/-- A `queryAs` or `writeAs` of a context: a registered gate, or a function the dispatcher never registered. -/
inductive SwitchFn (V : Type*) where
  | gated (gate : IdentityGate V)
  | bare (fn : Ungated)

namespace SwitchFn

omit [DecidableEq V]

/-- Reference: `sourceByGated.get`. -/
def source : SwitchFn V → Option (IdentityGate V)
  | .gated gate => some gate
  | .bare _ => none

/-- The function behind the gate, or the unregistered function itself. -/
def ungated : SwitchFn V → Ungated
  | .gated gate => gate.ungated
  | .bare fn => fn

end SwitchFn

/-- A call as `asUser`; the result is the identity the nested handler runs with. Reference:
`createGatedIdentitySwitch`. -/
def SwitchFn.call : SwitchFn V → DispatchUser V → Except SurfaceDenied (DispatchUser V)
  | .gated gate, asUser =>
    if isIdentitySwitchAllowed gate.caller asUser gate.hasGrant then gate.ungated.call asUser
    else .error (identitySwitchDenied gate.callerLabel asUser)
  | .bare fn, asUser => fn.call asUser

/-- Only a registered gate names the caller, and two gates of different callers name none. A context of the
dispatcher registers one caller object on both. Reference: `resolveDispatcherCaller`. -/
def resolveDispatcherCaller (querySource writeSource : Option (IdentityGate V)) : Option (DispatchUser V) :=
  match querySource, writeSource with
  | some query, some write => if query.caller = write.caller then query.caller else none
  | some query, none => query.caller
  | none, some write => write.caller
  | none, none => none

/-- The hook's `queryAs` and `writeAs`: a function the context lacks stays absent. Reference:
`gatedIdentitySwitchFields`. -/
def gatedIdentitySwitchFields (callerLabel : String) (escapeHatch : Option EscapeHatchDeclaration)
    (ctxQueryAs ctxWriteAs : Option (SwitchFn V)) : Option (SwitchFn V) × Option (SwitchFn V) :=
  let caller := resolveDispatcherCaller (ctxQueryAs.bind SwitchFn.source) (ctxWriteAs.bind SwitchFn.source)
  let gated (fn : SwitchFn V) : SwitchFn V := .gated ⟨callerLabel, caller, escapeHatch.isSome, fn.ungated⟩
  (ctxQueryAs.map gated, ctxWriteAs.map gated)

/-- What `createGatedMemberReader` closes over. -/
structure FlatGate where
  callerLabel : String
  allowed : Bool
  ungated : Ungated

/-- A function that is allowed or denied as a whole: `dispatch.queryAsMember` and
`auth.resolveActiveMembership`. -/
inductive FlatFn where
  | gated (gate : FlatGate)
  | bare (fn : Ungated)

/-- Reference: `createGatedMemberReader`. -/
def FlatFn.call : FlatFn → Except SurfaceDenied Unit
  | .gated gate =>
    if gate.allowed then gate.ungated.call () else .error (systemIdentitySwitchDenied gate.callerLabel)
  | .bare fn => fn.call ()

/-- Reference: `gatedMemberReaderField`. -/
def gatedMemberReaderField (callerLabel : String) (escapeHatch : Option EscapeHatchDeclaration) :
    FlatFn → FlatFn
  | .gated gate => .gated ⟨callerLabel, escapeHatch.isSome, gate.ungated⟩
  | .bare fn => .gated ⟨callerLabel, escapeHatch.isSome, fn⟩

/-- Reference: `deniedResolveActiveMembership`. -/
def deniedResolveActiveMembership (callerLabel : String) : FlatFn :=
  .bare (.throws (systemIdentitySwitchDenied callerLabel))

/-- What `createGatedProjectionReader` closes over. -/
structure ProjectionGate where
  callerLabel : String
  hasGrant : Bool
  projectionHasTenantColumn : String → Bool

/-- `dispatch.queryProjection` of the context. -/
inductive ProjectionReader where
  | gated (gate : ProjectionGate)
  | bare

/-- A read of the projection `qualifiedName`. Reference: `createGatedProjectionReader`. -/
def ProjectionReader.call (qualifiedName : String) (unsafeAllTenants : Bool) :
    ProjectionReader → Except SurfaceDenied Unit
  | .gated gate =>
    if unsafeAllTenants && gate.projectionHasTenantColumn qualifiedName && !gate.hasGrant then
      .error (unsafeAllTenantsDenied gate.callerLabel)
    else
      .ok ()
  | .bare => .ok ()

/-- Whether `unsafeAllTenants` widens the read as far as the reader knows. -/
def ProjectionReader.spansTenants (qualifiedName : String) : ProjectionReader → Bool
  | .gated gate => gate.projectionHasTenantColumn qualifiedName
  | .bare => true

/-- The hook's gate takes every projection for one with a tenant column. Reference:
`gatedProjectionReaderField`. -/
def gatedProjectionReaderField (callerLabel : String) (escapeHatch : Option EscapeHatchDeclaration)
    (_ctxQueryProjection : ProjectionReader) : ProjectionReader :=
  .gated ⟨callerLabel, escapeHatch.isSome, fun _ => true⟩

/-! ## What a gate lets through -/

/-- A function of a context that runs as `user` with or without `grant`: its gate names no one else and holds
no other grant, or it throws. -/
def SwitchFn.RunsFor (user : DispatchUser V) (grant : Bool) : SwitchFn V → Prop
  | .gated gate => (∀ caller, gate.caller = some caller → caller = user) ∧ gate.hasGrant = grant
  | .bare fn => ∃ error, fn = .throws error

omit [DecidableEq V] in
theorem Ungated.call_ok {α : Type*} {fn : Ungated} {x y : α} (h : fn.call x = .ok y) :
    fn = .dispatch ∧ y = x := by
  cases fn with
  | dispatch => cases h; exact ⟨rfl, rfl⟩
  | throws error => cases h

/-- Without a grant a context runs nothing its user does not contain. -/
theorem SwitchFn.RunsFor.contained {user asUser runsAs : DispatchUser V} {fn : SwitchFn V}
    (h : fn.RunsFor user false) (hcall : fn.call asUser = .ok runsAs) : Contained user runsAs := by
  cases fn with
  | bare fn =>
    obtain ⟨error, rfl⟩ := h
    cases hcall
  | gated gate =>
    obtain ⟨hcaller, hgrant⟩ := h
    simp only [SwitchFn.call] at hcall
    split at hcall
    · next hallowed =>
      rw [hgrant] at hallowed
      obtain ⟨caller, hnamed, hcontained⟩ := contained_of_isIdentitySwitchAllowed hallowed
      rw [(Ungated.call_ok hcall).2, ← hcaller caller hnamed]
      exact hcontained
    · cases hcall

/-- The caller the hook's gates name is one that a gate of the context names. -/
theorem resolveDispatcherCaller_mem {querySource writeSource : Option (IdentityGate V)} {caller : DispatchUser V}
    (h : resolveDispatcherCaller querySource writeSource = some caller) :
    ∃ gate, (querySource = some gate ∨ writeSource = some gate) ∧ gate.caller = some caller := by
  cases querySource with
  | none =>
    cases writeSource with
    | none => cases h
    | some write => exact ⟨write, .inr rfl, h⟩
  | some query =>
    cases writeSource with
    | none => exact ⟨query, .inl rfl, h⟩
    | some write =>
      simp only [resolveDispatcherCaller] at h
      split at h
      · exact ⟨query, .inl rfl, h⟩
      · cases h

/-- The hook's gates name the context's user and hold the hook's own grant. -/
theorem gatedIdentitySwitchFields_runsFor {callerLabel : String} {escapeHatch : Option EscapeHatchDeclaration}
    {ctxQueryAs ctxWriteAs : Option (SwitchFn V)} {user : DispatchUser V} {grant : Bool} {fn : SwitchFn V}
    (hctx : ∀ fn, ctxQueryAs = some fn ∨ ctxWriteAs = some fn → fn.RunsFor user grant)
    (h : (gatedIdentitySwitchFields callerLabel escapeHatch ctxQueryAs ctxWriteAs).1 = some fn ∨
      (gatedIdentitySwitchFields callerLabel escapeHatch ctxQueryAs ctxWriteAs).2 = some fn) :
    fn.RunsFor user escapeHatch.isSome := by
  have hcaller : ∀ caller, resolveDispatcherCaller (ctxQueryAs.bind SwitchFn.source)
      (ctxWriteAs.bind SwitchFn.source) = some caller → caller = user := by
    intro caller hresolved
    obtain ⟨gate, hsource, hnamed⟩ := resolveDispatcherCaller_mem hresolved
    have hgate : ctxQueryAs = some (.gated gate) ∨ ctxWriteAs = some (.gated gate) := by
      refine hsource.imp (fun h => ?_) (fun h => ?_)
      all_goals
        obtain ⟨source, hfn, hs⟩ := Option.bind_eq_some_iff.1 h
        cases source with
        | gated gate' => cases hs; exact hfn
        | bare _ => cases hs
    exact (hctx _ hgate).1 caller hnamed
  rcases h with h | h
  all_goals
    obtain ⟨source, -, rfl⟩ := Option.map_eq_some_iff.1 h
    exact ⟨hcaller, rfl⟩

end

end Kumiko
