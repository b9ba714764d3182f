import Kumiko.Pipeline.IdentitySwitch

/-!
# The handler's context

`buildHandlerContext` builds the context of one invocation: its dispatch functions behind gates that hold what
the handler declared, its `TenantDb` with the handler's grants, and what only a grant opens. A resolved member's
context is read-only. `TenantDb`s are told apart by the grants they carry.
-/

namespace Kumiko

/-! ## Databases of a context -/

/-- Reference: `TenantDbGrants`, less the audit sink and the gates no grant opens. -/
structure TenantDbGrants where
  globalWrites : Option EscapeHatchDeclaration
  unsafeRaw : Option EscapeHatchDeclaration
  memberReadOnly : Bool
  writesDeniedReason : Option String

/-- A `TenantDb` built by `createTenantDb`. -/
structure TenantDb where
  tenantId : String
  systemMode : Bool
  grants : TenantDbGrants

namespace TenantDb

/-- Whether `unsafeRaw()` hands out the runner. Reference: `grantedUnsafeRawRunner`. -/
def unsafeRaw (db : TenantDb) : Except SurfaceDenied Unit :=
  if db.grants.memberReadOnly then .error memberResolutionReadOnlyDenied
  else if !hasGrant db.grants.unsafeRaw then
    .error (.accessDenied ("ctx.db.unsafeRaw(): rejected — declare \x60escapeHatch: \x7b reason: \"...\" \x7d\x60 on " ++
      "the handler or hook to allow unsafeRaw.") "")
  else .ok ()

/-- Whether a write of `global(table)` passes its two grant checks. Reference: `writesDenied` and
`missingEscapeHatch`. -/
def globalWrite (db : TenantDb) (operation table : String) : Except SurfaceDenied Unit :=
  match db.grants.writesDeniedReason with
  | some reason =>
    .error (.internal ("ctx.db.global()." ++ operation ++ ": writes are not available " ++ reason ++
      "; run the write through ctx.dispatch.write so it gets its own transaction"))
  | none =>
    if hasGrant db.grants.globalWrites then .ok ()
    else
      .error (.accessDenied ("db.global(" ++ table ++ "): write rejected — declare " ++
        "\x60escapeHatch: \x7b reason: \"...\" \x7d\x60 on the write handler to allow " ++
        "writes through db.global().") "")

/-- The rebind drops `globalWrites`, which are for write handlers only. Reference: `withUnsafeRawGrant`. -/
def withUnsafeRawGrant (db : TenantDb) (grant : Option EscapeHatchDeclaration) : TenantDb :=
  { db with grants := { db.grants with unsafeRaw := grant, globalWrites := none } }

end TenantDb

/-- What stands under `db` or `db.outsideTransaction`: a `TenantDb`, or the guard that throws on every read. -/
inductive ExposedDb where
  | tenantDb (db : TenantDb)
  | guard (fieldName : String)

namespace ExposedDb

/-- The `TenantDb`s behind the surface. -/
def handles : ExposedDb → List TenantDb
  | .tenantDb db => [db]
  | .guard _ => []

/-- The guard passes through unchanged. -/
def withUnsafeRawGrant (exposed : ExposedDb) (grant : Option EscapeHatchDeclaration) : ExposedDb :=
  match exposed with
  | .tenantDb db => .tenantDb (db.withUnsafeRawGrant grant)
  | .guard fieldName => .guard fieldName

end ExposedDb

/-- `ctx.db` with the `outsideTransaction` property attached to it. -/
structure ContextDb where
  exposed : ExposedDb
  outsideTransaction : Option ExposedDb

namespace ContextDb

/-- The `TenantDb`s that code holding `db` reaches. -/
def handles (db : ContextDb) : List TenantDb :=
  db.exposed.handles ++ db.outsideTransaction.elim [] ExposedDb.handles

end ContextDb

/-- Reference: `regatedDb`. -/
def regatedDb (db : ContextDb) (rawHatch : Option EscapeHatchDeclaration) : ContextDb :=
  match db.exposed with
  | .tenantDb exposed =>
    ⟨.tenantDb (exposed.withUnsafeRawGrant rawHatch),
      db.outsideTransaction.map (ExposedDb.withUnsafeRawGrant · rawHatch)⟩
  | .guard _ => db

/-- The gate of a system db's `unsafeRaw`. Reference: the `gate` of `buildUncheckedSystemDb`. -/
inductive SystemDbGate where
  | unchecked
  | hookGrant (grant : Option EscapeHatchDeclaration) (deniedCallerLabel : String)
  | sourceTenantDb

/-- `ctx.systemDb`: the db it hands out after a tenant check, the outside-transaction db its rebinder closes
over, whether its `outsideTransaction` property is still there, and its gate. -/
structure SystemDb where
  db : TenantDb
  boundOutside : Option TenantDb
  outsideAttached : Bool
  gate : SystemDbGate

namespace SystemDb

/-- The `TenantDb`s its checks hand out. -/
def handles (systemDb : SystemDb) : List TenantDb :=
  systemDb.db :: if systemDb.outsideAttached then systemDb.boundOutside.toList else []

/-- Whether `unsafeRaw(reason)` with a real reason hands out the runner. -/
def unsafeRaw (systemDb : SystemDb) : Except SurfaceDenied Unit :=
  match systemDb.gate with
  | .unchecked => .ok ()
  | .hookGrant grant deniedCallerLabel =>
    if hasGrant grant then .ok ()
    else
      .error (.accessDenied ("ctx.systemDb.unsafeRaw(reason): rejected — declare " ++
        "\x60escapeHatch: \x7b reason: \"...\" \x7d\x60 on " ++ deniedCallerLabel ++ " to allow unsafeRaw.") "")
  | .sourceTenantDb => systemDb.db.unsafeRaw

/-- A view of a member's db passes through unchanged. Reference: `withSystemDbUnsafeRawGrant`. -/
def withUnsafeRawGrant (systemDb : SystemDb) (grant : Option EscapeHatchDeclaration)
    (deniedCallerLabel : String) : SystemDb :=
  match systemDb.gate with
  | .sourceTenantDb => systemDb
  | _ =>
    ⟨systemDb.db.withUnsafeRawGrant grant, systemDb.boundOutside.map (TenantDb.withUnsafeRawGrant · grant),
      true, .hookGrant grant deniedCallerLabel⟩

end SystemDb

/-! ## Contexts -/

/-- The fields of a handler's context that a grant opens or a gate guards. Reference: `HandlerContext`. -/
structure HandlerContext (V : Type*) where
  user : DispatchUser V
  query : Ungated
  queryAs : Option (SwitchFn V)
  write : Ungated
  writeAs : Option (SwitchFn V)
  queryAsMember : Option FlatFn
  queryProjection : Option ProjectionReader
  resolveActiveMembership : Option FlatFn
  db : Option ContextDb
  systemDb : Option SystemDb
  /-- The reason `ctx.crossTenantReads` reports, where the field is there. -/
  crossTenantReads : Option String
  /-- `ctx.tenants.writeTarget`. -/
  writeTarget : Option (String → Except SurfaceDenied ContextDb)

/-- A hook attached to a handler: the label of its errors and its own escape hatch. -/
structure HookDef where
  label : String
  escapeHatch : Option EscapeHatchDeclaration
  deriving DecidableEq

/-- Reference: `WriteHandlerDef`. -/
structure DispatchWriteHandler where
  escapeHatch : Option EscapeHatchDeclaration
  perCommand : Bool

/-- Reference: `QueryHandlerDef`, with its `ENTITY_CONVENTION_QUERY_BRAND`. -/
structure DispatchQueryHandler where
  escapeHatch : Option EscapeHatchDeclaration
  entityConvention : Bool

/-- Reference: `StreamHandlerDef`. -/
structure DispatchStreamHandler where
  escapeHatch : Option EscapeHatchDeclaration

/-- What the dispatcher asks the registry. Reference: `Registry`. -/
structure DispatchRegistry where
  getWriteHandler : String → Option DispatchWriteHandler
  getQueryHandler : String → Option DispatchQueryHandler
  getStreamHandler : String → Option DispatchStreamHandler
  isHandlerSystemScoped : String → Bool
  getHandlerEntity : String → Option String
  /-- Whether the entity is declared `tenancy: "global"`. -/
  isGlobalEntity : String → Bool
  /-- Whether the projection has a tenant column; `none` for an unknown projection. -/
  projectionTenantColumn : String → Option Bool
  hooks : String → List HookDef

/-- Reference: `HandlerTransactionScope`. -/
inductive HandlerTransactionScope where
  | inTransaction
  | withoutTransaction
  | postCommit
  deriving DecidableEq

/-- Reference: `HandlerPhase`. -/
inductive HandlerPhase where
  | handler
  | reservation
  | beforeTransaction
  deriving DecidableEq

/-- What an invocation finds around it: database sources, the agent scope and how the dispatcher runs it. -/
structure Invocation where
  hasDbSource : Bool
  hasOutsideTxSource : Bool
  agentToolCall : Bool
  transactionScope : HandlerTransactionScope
  phase : HandlerPhase

/-- One execution of a handler. -/
structure Execution (V : Type*) where
  type : String
  user : DispatchUser V
  invocation : Invocation

namespace DispatchRegistry

variable (registry : DispatchRegistry)

/-- Reference: `isGlobalEntityReadInAgentToolCall`. -/
def isGlobalEntityReadInAgentToolCall (type : String) (agentToolCall : Bool) : Bool :=
  agentToolCall &&
    match registry.getQueryHandler type with
    | none => false
    | some handler =>
      handler.entityConvention && handler.escapeHatch.isNone &&
        (registry.getHandlerEntity type).any registry.isGlobalEntity

/-- Reference: `isEffectivelySystemScoped`. -/
def isEffectivelySystemScoped (type : String) (agentToolCall : Bool) : Bool :=
  registry.isHandlerSystemScoped type && !registry.isGlobalEntityReadInAgentToolCall type agentToolCall

/-- Reference: `writeEscapeHatch` of the scope. -/
def writeEscapeHatch (type : String) : Option EscapeHatchDeclaration :=
  (registry.getWriteHandler type).bind (·.escapeHatch)

/-- Reference: `handlerEscapeHatch` of the scope. -/
def handlerEscapeHatch (type : String) : Option EscapeHatchDeclaration :=
  registry.writeEscapeHatch type <|> (registry.getQueryHandler type).bind (·.escapeHatch) <|>
    (registry.getStreamHandler type).bind (·.escapeHatch)

/-- Reference: `isWriteHandler` of the scope. -/
def isWriteHandler (type : String) : Bool := (registry.getWriteHandler type).isSome

/-- Reference: `isPerCommand` of the scope. -/
def isPerCommand (type : String) : Bool := (registry.getWriteHandler type).any (·.perCommand)

end DispatchRegistry

section

variable {V : Type*} (registry : DispatchRegistry) (e : Execution V)

namespace Execution

/-- Reference: `isSystem` of the scope. -/
def isSystem : Bool := registry.isEffectivelySystemScoped e.type e.invocation.agentToolCall

/-- Reference: `denyDbWrites` of the scope. -/
def denyDbWrites : Bool := e.invocation.transactionScope == .withoutTransaction

/-- Reference: `hasIdentitySwitchGrant` of the scope. -/
def hasIdentitySwitchGrant : Bool :=
  e.isSystem registry || (escapeHatchFor (registry.handlerEscapeHatch e.type) .systemIdentity).isSome

/-- Reference: the caller label `handler "${type}"`. -/
def label : String := "handler \"" ++ e.type ++ "\""

end Execution

/-- Reference: `buildTenantScopedDb`. -/
def buildTenantScopedDb (foreignTenantId : Option String) (denyWrites : Bool) : TenantDb :=
  let grantsEscapeHatches := foreignTenantId.isNone && !e.invocation.agentToolCall
  ⟨foreignTenantId.getD e.user.tenantId, e.isSystem registry && foreignTenantId.isNone,
    { globalWrites :=
        if grantsEscapeHatches then escapeHatchFor (registry.writeEscapeHatch e.type) .globalWrites else none
      unsafeRaw :=
        if grantsEscapeHatches then escapeHatchFor (registry.handlerEscapeHatch e.type) .unsafeRaw else none
      memberReadOnly := isMemberResolutionPrincipal e.user
      writesDeniedReason := if denyWrites then some "without an open transaction" else none }⟩

/-- The db bound to the unpooled or dedicated source. Reference: `rawDbOutsideTransaction`. -/
def rawDbOutsideTransaction : Option TenantDb :=
  if e.invocation.hasOutsideTxSource then some (buildTenantScopedDb registry e none false) else none

/-- Reference: `db` of `buildHandlerDbFacet`. -/
def facetDb : Option TenantDb :=
  if e.invocation.hasDbSource then some (buildTenantScopedDb registry e none e.denyDbWrites) else none

/-- A system-scoped handler gets guards in place of both dbs. Reference: `exposedDb`. -/
def exposedDb : Option ContextDb :=
  (facetDb registry e).map fun db =>
    if e.isSystem registry then
      ⟨.guard "db", (rawDbOutsideTransaction registry e).map fun _ => .guard "db.outsideTransaction"⟩
    else
      ⟨.tenantDb db, (rawDbOutsideTransaction registry e).map .tenantDb⟩

/-- A resolved member gets the view. Reference: `systemDb` of `buildHandlerDbFacet`. -/
def facetSystemDb : Option SystemDb :=
  if e.isSystem registry then
    (facetDb registry e).map fun db =>
      if isMemberResolutionPrincipal e.user then ⟨db, none, true, .sourceTenantDb⟩
      else ⟨db, rawDbOutsideTransaction registry e, true, .unchecked⟩
  else none

/-- Reference: `buildHandlerCrossTenantReads`. -/
def buildHandlerCrossTenantReads : Option String :=
  if e.invocation.agentToolCall || !e.invocation.hasDbSource then none
  else (crossTenantReadsGrantFor (registry.handlerEscapeHatch e.type)).map (·.reason)

/-- Reference: `mayOverrideTenant`. -/
def mayOverrideTenant (user : DispatchUser V) : Bool := user.roles.contains "SystemAdmin"

/-- Whether every db of the own-tenant target of `writeTarget` denies writes. -/
def Execution.ownTargetWritesDenied : Bool :=
  e.denyDbWrites && (e.invocation.phase == .beforeTransaction ||
    (registry.isPerCommand e.type && !e.invocation.hasOutsideTxSource))

/-- The caller's own tenant as a target. Only `perCommand` handlers lose these writes; reservations keep their
pre-transaction contract. Reference: `ownTenantDb` of `buildWriteTarget`. -/
def ownTenantDb (exposed : ContextDb) : ContextDb :=
  if e.denyDbWrites && !registry.isPerCommand e.type then
    ⟨.tenantDb (buildTenantScopedDb registry e none (e.invocation.phase == .beforeTransaction)), none⟩
  else exposed

/-- Reference: `buildWriteTarget`. -/
def buildWriteTarget : Option (String → Except SurfaceDenied ContextDb) :=
  if !e.isSystem registry && e.invocation.hasDbSource && registry.isWriteHandler e.type then
    some fun targetTenantId =>
      match targetTenantId == e.user.tenantId, exposedDb registry e with
      | true, some exposed => .ok (ownTenantDb registry e exposed)
      | _, _ =>
        if mayOverrideTenant e.user then
          .ok ⟨.tenantDb (buildTenantScopedDb registry e (some targetTenantId) (e.denyDbWrites &&
            (registry.isPerCommand e.type || e.invocation.phase == .beforeTransaction))), none⟩
        else .error (.accessDenied "access denied" "tenant_override_requires_system_admin")
  else none

/-- An unknown projection counts as one with a tenant column. Reference: `buildHandlerProjectionReader`. -/
def DispatchRegistry.projectionHasTenantColumn (qualifiedName : String) : Bool :=
  (registry.projectionTenantColumn qualifiedName).getD true

/-- The context before the member and phase wrappers. Reference: `handlerContext` of `buildHandlerContext`. -/
def plainContext : HandlerContext V where
  user := e.user
  query := .dispatch
  queryAs := some (.gated ⟨e.label, some e.user, e.hasIdentitySwitchGrant registry, .dispatch⟩)
  write := .dispatch
  writeAs := some (.gated ⟨e.label, some e.user, e.hasIdentitySwitchGrant registry, .dispatch⟩)
  queryAsMember := some (.gated ⟨e.label, e.hasIdentitySwitchGrant registry, .dispatch⟩)
  queryProjection :=
    some (.gated ⟨e.label, e.hasIdentitySwitchGrant registry, registry.projectionHasTenantColumn⟩)
  resolveActiveMembership := some (.gated ⟨e.label, e.hasIdentitySwitchGrant registry, .dispatch⟩)
  db := exposedDb registry e
  systemDb := facetSystemDb registry e
  crossTenantReads := buildHandlerCrossTenantReads registry e
  writeTarget := buildWriteTarget registry e

end

section

variable {V : Type*}

/-- The db without its `outsideTransaction` property. -/
def ContextDb.withoutOutside (db : ContextDb) : ContextDb := ⟨db.exposed, none⟩

/-- The property is dropped in place, so the own-tenant target of `writeTarget`, which hands out the same
object, loses it too. Reference: `dropOutsideTransaction`. -/
def dropOutsideTransaction (ctx : HandlerContext V) : HandlerContext V :=
  { ctx with
    db := ctx.db.map ContextDb.withoutOutside
    writeTarget := ctx.writeTarget.map fun target tenantId => (target tenantId).map ContextDb.withoutOutside }

/-- Reference: `applyMemberResolutionReadOnly`. -/
def applyMemberResolutionReadOnly (ctx : HandlerContext V) : HandlerContext V :=
  { dropOutsideTransaction ctx with
    crossTenantReads := none
    write := .throws memberResolutionReadOnlyDenied
    writeAs := some (.bare (.throws memberResolutionReadOnlyDenied))
    queryAs := some (.bare (.throws memberResolutionReadOnlyDenied))
    queryAsMember := some (.bare (.throws memberResolutionReadOnlyDenied))
    resolveActiveMembership := some (.bare (.throws memberResolutionReadOnlyDenied))
    writeTarget := none }

/-- Reference: `denyTransactionBoundSurfaces`. -/
def denyTransactionBoundSurfaces (ctx : HandlerContext V) : HandlerContext V :=
  { ctx with
    write := .throws (beforeTransactionDenied "dispatch.write")
    writeAs := some (.bare (.throws (beforeTransactionDenied "dispatch.writeAs"))) }

/-- Reference: `applyBeforeTransactionReadOnly`. -/
def applyBeforeTransactionReadOnly (ctx : HandlerContext V) : HandlerContext V :=
  denyTransactionBoundSurfaces
    { dropOutsideTransaction ctx with
      systemDb := ctx.systemDb.map fun systemDb => { systemDb with outsideAttached := false } }

/-- The phase wrapper. -/
def phasedContext (phase : HandlerPhase) (ctx : HandlerContext V) : HandlerContext V :=
  match phase with
  | .handler => ctx
  | .reservation => denyTransactionBoundSurfaces ctx
  | .beforeTransaction => applyBeforeTransactionReadOnly ctx

/-- The wrapper for a resolved member. -/
def memberSafeContext (ctx : HandlerContext V) : HandlerContext V :=
  if isMemberResolutionPrincipal ctx.user then applyMemberResolutionReadOnly ctx else ctx

/-- Reference: `buildHandlerContext`. -/
def buildHandlerContext (registry : DispatchRegistry) (e : Execution V) :
    Except SurfaceDenied (HandlerContext V) :=
  if e.isSystem registry && e.invocation.agentToolCall then
    .error (.accessDenied ("\"" ++ e.type ++ "\" is a system-scope handler and cannot run inside an agent tool call")
      "agent.tool_not_allowed")
  else .ok (phasedContext e.invocation.phase (memberSafeContext (plainContext registry e)))

/-! ## What a handler's context carries -/

variable {registry : DispatchRegistry} {e : Execution V} {ctx : HandlerContext V}

/-- A context is only built where a system scope does not meet an agent tool call. -/
theorem buildHandlerContext_ok (h : buildHandlerContext registry e = .ok ctx) :
    (e.isSystem registry && e.invocation.agentToolCall) = false ∧
      ctx = phasedContext e.invocation.phase (memberSafeContext (plainContext registry e)) := by
  unfold buildHandlerContext at h
  split at h
  · cases h
  · next hsystem => cases h; exact ⟨by simpa using hsystem, rfl⟩

theorem phasedContext_user (phase : HandlerPhase) (ctx : HandlerContext V) :
    (phasedContext phase ctx).user = ctx.user := by
  cases phase <;> rfl

theorem memberSafeContext_user (ctx : HandlerContext V) : (memberSafeContext ctx).user = ctx.user := by
  unfold memberSafeContext
  split <;> rfl

theorem buildHandlerContext_user (h : buildHandlerContext registry e = .ok ctx) : ctx.user = e.user := by
  rw [(buildHandlerContext_ok h).2, phasedContext_user, memberSafeContext_user]
  rfl

/-- The wrappers leave a gate alone or put a stub in its place. -/
theorem memberSafeContext_runsFor {user : DispatchUser V} {grant : Bool} {fn : SwitchFn V}
    (hctx : ∀ fn, ctx.queryAs = some fn ∨ ctx.writeAs = some fn → fn.RunsFor user grant)
    (h : (memberSafeContext ctx).queryAs = some fn ∨ (memberSafeContext ctx).writeAs = some fn) :
    fn.RunsFor user grant := by
  unfold memberSafeContext at h
  split at h
  · rcases h with h | h <;> (cases h; exact ⟨_, rfl⟩)
  · exact hctx fn h

theorem phasedContext_runsFor {phase : HandlerPhase} {user : DispatchUser V} {grant : Bool} {fn : SwitchFn V}
    (hctx : ∀ fn, ctx.queryAs = some fn ∨ ctx.writeAs = some fn → fn.RunsFor user grant)
    (h : (phasedContext phase ctx).queryAs = some fn ∨ (phasedContext phase ctx).writeAs = some fn) :
    fn.RunsFor user grant := by
  cases phase with
  | handler => exact hctx fn h
  | reservation =>
    rcases h with h | h
    · exact hctx fn (.inl h)
    · cases h; exact ⟨_, rfl⟩
  | beforeTransaction =>
    rcases h with h | h
    · exact hctx fn (.inl h)
    · cases h; exact ⟨_, rfl⟩

/-- The handler's functions run for the user of the execution, with the grant of the handler. -/
theorem buildHandlerContext_runsFor (hbuilt : buildHandlerContext registry e = .ok ctx) {fn : SwitchFn V}
    (h : ctx.queryAs = some fn ∨ ctx.writeAs = some fn) :
    fn.RunsFor e.user (e.hasIdentitySwitchGrant registry) := by
  rw [(buildHandlerContext_ok hbuilt).2] at h
  refine phasedContext_runsFor (fun fn h => memberSafeContext_runsFor (fun fn h => ?_) h) h
  rcases h with h | h
  all_goals
    cases h
    refine ⟨?_, rfl⟩
    rintro caller ⟨⟩
    rfl

theorem TenantDb.unsafeRaw_ok_iff {db : TenantDb} :
    db.unsafeRaw = .ok () ↔ db.grants.memberReadOnly = false ∧ hasGrant db.grants.unsafeRaw = true := by
  unfold TenantDb.unsafeRaw
  split
  · simp_all
  · split <;> simp_all

theorem TenantDb.globalWrite_ok_iff {db : TenantDb} {operation table : String} :
    db.globalWrite operation table = .ok () ↔
      db.grants.writesDeniedReason = none ∧ hasGrant db.grants.globalWrites = true := by
  unfold TenantDb.globalWrite
  split
  · simp_all
  · split <;> simp_all

/-- Where an escape hatch counts, the own-tenant db carries what the handler declared. -/
theorem buildTenantScopedDb_own (hagent : e.invocation.agentToolCall = false) (denyWrites : Bool) :
    (buildTenantScopedDb registry e none denyWrites).grants =
      ⟨escapeHatchFor (registry.writeEscapeHatch e.type) .globalWrites,
        escapeHatchFor (registry.handlerEscapeHatch e.type) .unsafeRaw, isMemberResolutionPrincipal e.user,
        if denyWrites then some "without an open transaction" else none⟩ := by
  simp [buildTenantScopedDb, hagent]

/-- An agent tool call gets neither raw access nor global writes, and neither does a foreign tenant's db. -/
theorem buildTenantScopedDb_bare {foreignTenantId : Option String} {denyWrites : Bool}
    (h : e.invocation.agentToolCall = true ∨ foreignTenantId.isSome = true) :
    (buildTenantScopedDb registry e foreignTenantId denyWrites).grants.unsafeRaw = none ∧
      (buildTenantScopedDb registry e foreignTenantId denyWrites).grants.globalWrites = none := by
  rcases h with h | h
  · simp [buildTenantScopedDb, h]
  · obtain ⟨tenantId, rfl⟩ := Option.isSome_iff_exists.1 h
    simp [buildTenantScopedDb]

/-- A guard under `db` stands in front of nothing but guards. -/
def ContextDb.Uniform (db : ContextDb) : Prop :=
  (∃ handle, db.exposed = .tenantDb handle) ∨ db.handles = []

theorem exposedDb_uniform {db : ContextDb} (h : exposedDb registry e = some db) : db.Uniform := by
  obtain ⟨handle, -, rfl⟩ := Option.map_eq_some_iff.1 h
  split
  · right
    cases rawDbOutsideTransaction registry e <;> rfl
  · exact .inl ⟨handle, rfl⟩

theorem ContextDb.Uniform.withoutOutside {db : ContextDb} (h : db.Uniform) : db.withoutOutside.Uniform := by
  rcases h with h | h
  · exact .inl h
  · right
    simp_all [ContextDb.handles, ContextDb.withoutOutside]

/-- Every db behind the hook's `db` carries the hook's raw grant and no global writes. -/
theorem regatedDb_grants {contextDb : ContextDb} {rawHatch : Option EscapeHatchDeclaration} {db : TenantDb}
    (huniform : contextDb.Uniform) (h : db ∈ (regatedDb contextDb rawHatch).handles) :
    db.grants.unsafeRaw = rawHatch ∧ db.grants.globalWrites = none := by
  obtain ⟨exposed, outside⟩ := contextDb
  cases exposed with
  | guard fieldName =>
    rcases huniform with ⟨handle, hhandle⟩ | hnone
    · cases hhandle
    · simp only [regatedDb] at h
      rw [hnone] at h
      cases h
  | tenantDb handle =>
    rcases List.mem_append.1 h with h | h
    · rw [List.mem_singleton.1 h]
      exact ⟨rfl, rfl⟩
    · rcases outside with _ | (outsideDb | fieldName)
      · cases h
      · rw [List.mem_singleton.1 h]
        exact ⟨rfl, rfl⟩
      · cases h

/-- A db of the own-tenant target carries the handler's grants; when it takes writes, not every db of the
target denies them. -/
def OwnTarget (registry : DispatchRegistry) (e : Execution V) (db : TenantDb) : Prop :=
  ∃ denyWrites, db = buildTenantScopedDb registry e none denyWrites ∧
    (denyWrites = false → e.ownTargetWritesDenied registry = false)

/-- What `writeTarget` hands out: the handler's own db, or a foreign one that carries no grant. -/
theorem buildWriteTarget_handles {target : String → Except SurfaceDenied ContextDb} {tenantId : String}
    {contextDb : ContextDb} {db : TenantDb} (h : buildWriteTarget registry e = some target)
    (ht : target tenantId = .ok contextDb) (hmem : db ∈ contextDb.handles)
    (hphase : e.invocation.phase = .beforeTransaction → db ∈ contextDb.withoutOutside.handles) :
    (e.isSystem registry = false ∧ e.invocation.hasDbSource = true ∧ registry.isWriteHandler e.type = true) ∧
      (OwnTarget registry e db ∨ db.grants.unsafeRaw = none ∧ db.grants.globalWrites = none) := by
  unfold buildWriteTarget at h
  split at h
  · next hoffered =>
    simp only [Bool.and_eq_true, Bool.not_eq_true'] at hoffered
    obtain ⟨⟨hsystem, hsource⟩, hwrite⟩ := hoffered
    refine ⟨⟨hsystem, hsource, hwrite⟩, ?_⟩
    cases h
    have hexposed : exposedDb registry e = some ⟨.tenantDb (buildTenantScopedDb registry e none e.denyDbWrites),
        (rawDbOutsideTransaction registry e).map .tenantDb⟩ := by
      simp [exposedDb, facetDb, hsource, hsystem]
    simp only [hexposed] at ht
    split at ht
    · next hown heq =>
      cases heq
      cases ht
      unfold ownTenantDb at hmem hphase
      split at hmem
      · next hdenied =>
        have hdb : db = buildTenantScopedDb registry e none (e.invocation.phase == .beforeTransaction) := by
          simpa [ContextDb.handles, ExposedDb.handles] using hmem
        refine .inl ⟨_, hdb, fun hwrites => ?_⟩
        simp_all [Execution.ownTargetWritesDenied]
      · next hkept =>
        rw [if_neg hkept] at hphase
        rcases List.mem_append.1 hmem with hmem | hmem
        · rw [List.mem_singleton.1 hmem]
          refine .inl ⟨_, rfl, fun hwrites => ?_⟩
          simp [Execution.ownTargetWritesDenied, hwrites]
        · -- the outside-transaction db takes writes wherever it is still attached
          have hoffPhase : e.invocation.phase ≠ .beforeTransaction ∨ db =
              buildTenantScopedDb registry e none e.denyDbWrites := by
            by_cases hp : e.invocation.phase = .beforeTransaction
            · right
              simpa [ContextDb.handles, ContextDb.withoutOutside, ExposedDb.handles] using hphase hp
            · exact .inl hp
          rcases hoffPhase with hp | rfl
          · unfold rawDbOutsideTransaction at hmem
            split at hmem
            · next houtside =>
              rw [List.mem_singleton.1 hmem]
              refine .inl ⟨false, rfl, fun _ => ?_⟩
              simp [Execution.ownTargetWritesDenied, houtside, hp]
            · cases hmem
          · refine .inl ⟨_, rfl, fun hwrites => ?_⟩
            simp [Execution.ownTargetWritesDenied, hwrites]
    · split at ht
      · cases ht
        have hdb : db = buildTenantScopedDb registry e (some tenantId) (e.denyDbWrites &&
            (registry.isPerCommand e.type || e.invocation.phase == .beforeTransaction)) := by
          simpa [ContextDb.handles, ExposedDb.handles] using hmem
        rw [hdb]
        exact .inr (buildTenantScopedDb_bare (.inr rfl))
      · cases ht
  · cases h

/-- A resolved member's context has neither `crossTenantReads` nor `writeTarget`; any other keeps the
handler's, without the outside-transaction property before the transaction. -/
theorem buildHandlerContext_carried (h : buildHandlerContext registry e = .ok ctx) :
    ctx.crossTenantReads =
        (if isMemberResolutionPrincipal e.user then none else buildHandlerCrossTenantReads registry e) ∧
      ctx.writeTarget =
        (if isMemberResolutionPrincipal e.user then none
        else if e.invocation.phase = .beforeTransaction then
          (buildWriteTarget registry e).map fun target tenantId => (target tenantId).map ContextDb.withoutOutside
        else buildWriteTarget registry e) := by
  rw [(buildHandlerContext_ok h).2]
  have huser : (plainContext registry e).user = e.user := rfl
  unfold memberSafeContext
  rw [huser]
  split
  · cases e.invocation.phase <;> exact ⟨rfl, rfl⟩
  · cases e.invocation.phase <;> exact ⟨rfl, rfl⟩

/-- The wrappers keep `db`, or take its outside-transaction property. -/
theorem phasedContext_db (phase : HandlerPhase) (ctx : HandlerContext V) :
    (phasedContext phase ctx).db = ctx.db ∨ (phasedContext phase ctx).db = ctx.db.map ContextDb.withoutOutside := by
  cases phase with
  | handler => exact .inl rfl
  | reservation => exact .inl rfl
  | beforeTransaction => exact .inr rfl

theorem memberSafeContext_db (ctx : HandlerContext V) :
    (memberSafeContext ctx).db = ctx.db ∨ (memberSafeContext ctx).db = ctx.db.map ContextDb.withoutOutside := by
  unfold memberSafeContext
  split
  · exact .inr rfl
  · exact .inl rfl

private theorem uniform_of_kept {db? db'? : Option ContextDb} (h : ∀ db, db? = some db → db.Uniform)
    (hkept : db'? = db? ∨ db'? = db?.map ContextDb.withoutOutside) (db : ContextDb) (hdb : db'? = some db) :
    db.Uniform := by
  rcases hkept with rfl | rfl
  · exact h db hdb
  · obtain ⟨kept, hkept, rfl⟩ := Option.map_eq_some_iff.1 hdb
    exact (h kept hkept).withoutOutside

theorem buildHandlerContext_db (h : buildHandlerContext registry e = .ok ctx) {db : ContextDb}
    (hdb : ctx.db = some db) : db.Uniform := by
  rw [(buildHandlerContext_ok h).2] at hdb
  have hmember := uniform_of_kept (fun _ => exposedDb_uniform) (memberSafeContext_db (plainContext registry e))
  exact uniform_of_kept hmember (phasedContext_db e.invocation.phase _) db hdb

/-- A system db is there for a system-scoped handler; a resolved member's is the view, over a db without an
outside-transaction twin. -/
theorem buildHandlerContext_systemDb (h : buildHandlerContext registry e = .ok ctx) {systemDb : SystemDb}
    (hdb : ctx.systemDb = some systemDb) :
    e.isSystem registry = true ∧ e.invocation.hasDbSource = true ∧
      (isMemberResolutionPrincipal e.user = false → systemDb.gate = .unchecked) ∧
      (isMemberResolutionPrincipal e.user = true → systemDb.gate = .sourceTenantDb ∧
        systemDb.boundOutside = none ∧ systemDb.db = buildTenantScopedDb registry e none e.denyDbWrites) := by
  have hfacet : ∃ facet, facetSystemDb registry e = some facet ∧ systemDb.gate = facet.gate ∧
      systemDb.boundOutside = facet.boundOutside ∧ systemDb.db = facet.db := by
    rw [(buildHandlerContext_ok h).2] at hdb
    have hmember : (memberSafeContext (plainContext registry e)).systemDb = facetSystemDb registry e := by
      unfold memberSafeContext
      split <;> rfl
    cases hphase : e.invocation.phase with
    | handler => exact ⟨systemDb, by rw [hphase] at hdb; exact hmember ▸ hdb, rfl, rfl, rfl⟩
    | reservation => exact ⟨systemDb, by rw [hphase] at hdb; exact hmember ▸ hdb, rfl, rfl, rfl⟩
    | beforeTransaction =>
      rw [hphase] at hdb
      obtain ⟨facet, hfacet, rfl⟩ := Option.map_eq_some_iff.1 hdb
      exact ⟨facet, hmember ▸ hfacet, rfl, rfl, rfl⟩
  obtain ⟨facet, hfacet, hgate, hbound, hdb'⟩ := hfacet
  unfold facetSystemDb at hfacet
  split at hfacet
  · next hsystem =>
    obtain ⟨handle, hhandle, rfl⟩ := Option.map_eq_some_iff.1 hfacet
    unfold facetDb at hhandle
    split at hhandle
    · next hsource =>
      cases hhandle
      refine ⟨hsystem, hsource, fun hmember => ?_, fun hmember => ?_⟩
      · simpa [hmember] using hgate
      · simp only [hmember, if_true] at hgate hbound hdb'
        exact ⟨hgate, hbound, hdb'⟩
    · cases hhandle
  · cases hfacet

/-- The own-tenant target hands out a db with the handler's grants, and one that takes writes unless all its
dbs deny them. -/
theorem ownTenantDb_handle {exposed : ContextDb} (hsystem : e.isSystem registry = false)
    (hexposed : exposedDb registry e = some exposed) :
    ∃ denyWrites,
      buildTenantScopedDb registry e none denyWrites ∈ (ownTenantDb registry e exposed).handles ∧
      (e.invocation.phase = .beforeTransaction →
        buildTenantScopedDb registry e none denyWrites ∈ (ownTenantDb registry e exposed).withoutOutside.handles) ∧
      (e.ownTargetWritesDenied registry = false → denyWrites = false) := by
  obtain ⟨db, hdb, rfl⟩ := Option.map_eq_some_iff.1 hexposed
  obtain ⟨-, ⟨⟩⟩ := Option.ite_none_right_eq_some.1 hdb
  rw [hsystem]
  unfold ownTenantDb
  split
  · next hpath =>
    refine ⟨e.invocation.phase == .beforeTransaction, List.mem_cons_self, fun _ => List.mem_cons_self, ?_⟩
    intro hwrites
    simp_all [Execution.ownTargetWritesDenied]
  · next hpath =>
    by_cases houtside : e.invocation.hasOutsideTxSource = true ∧ e.invocation.phase ≠ .beforeTransaction
    · refine ⟨false, ?_, fun hbefore => absurd hbefore houtside.2, fun _ => rfl⟩
      simp [ContextDb.handles, rawDbOutsideTransaction, houtside.1, ExposedDb.handles]
    · refine ⟨e.denyDbWrites, List.mem_cons_self, fun _ => List.mem_cons_self, ?_⟩
      intro hwrites
      grind [Execution.ownTargetWritesDenied]

theorem phasedContext_systemDb (phase : HandlerPhase) {systemDb : SystemDb} (h : ctx.systemDb = some systemDb) :
    ∃ kept, (phasedContext phase ctx).systemDb = some kept ∧ kept.gate = systemDb.gate ∧
      kept.db = systemDb.db := by
  cases phase with
  | handler => exact ⟨systemDb, h, rfl, rfl⟩
  | reservation => exact ⟨systemDb, h, rfl, rfl⟩
  | beforeTransaction =>
    have hdropped : (phasedContext .beforeTransaction ctx).systemDb =
        ctx.systemDb.map fun systemDb => { systemDb with outsideAttached := false } := rfl
    rw [h] at hdropped
    exact ⟨_, hdropped, rfl, rfl⟩

end

end Kumiko
