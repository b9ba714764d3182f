import Kumiko.Library.Run
import Kumiko.Pipeline.HandlerContext

/-!
# What a hook gains from its handler

A hook runs over its handler's context, rebuilt by `withHookEscapeHatchGrant`: the gates, `db` and `systemDb`
are replaced, while `crossTenantReads` and `tenants.writeTarget` stay the handler's. Without a system grant on
the way every execution stays contained in the first caller (`nest_run_contained`); a hook gains nothing exactly
where its own escape hatch covers what is carried over (`gainsNothing_iff`).
-/

namespace Kumiko

open Transition

section

variable {V : Type*} [DecidableEq V]

/-! ## The hook's context -/

/-- The context a hook gets. Reference: `withHookEscapeHatchGrant`. -/
def withHookEscapeHatchGrant (ctx : HandlerContext V) (callerLabel : String)
    (escapeHatch : Option EscapeHatchDeclaration) : HandlerContext V :=
  let identityHatch := escapeHatchFor escapeHatch .systemIdentity
  let rawHatch := escapeHatchFor escapeHatch .unsafeRaw
  let identitySwitch := gatedIdentitySwitchFields callerLabel identityHatch ctx.queryAs ctx.writeAs
  { ctx with
    queryAs := identitySwitch.1
    writeAs := identitySwitch.2
    queryAsMember := ctx.queryAsMember.map (gatedMemberReaderField callerLabel identityHatch)
    queryProjection := ctx.queryProjection.map (gatedProjectionReaderField callerLabel identityHatch)
    resolveActiveMembership :=
      if identityHatch.isNone then
        ctx.resolveActiveMembership.map fun _ => deniedResolveActiveMembership callerLabel
      else ctx.resolveActiveMembership
    db := ctx.db.map (regatedDb · rawHatch)
    systemDb := ctx.systemDb.map (·.withUnsafeRawGrant rawHatch callerLabel) }

/-! ## Chains of executions -/

/-- Who dispatches: the handler of the execution, or a hook that runs over its context. -/
inductive Caller where
  | handler
  | hook (h : HookDef)

/-- A call of the dispatch surface. -/
inductive DispatchCall (V : Type*) where
  | query
  | write
  | queryAs (asUser : DispatchUser V)
  | writeAs (asUser : DispatchUser V)

/-- One call of a chain: who makes it, which handler it names, and what the nested execution finds. -/
structure Nesting (V : Type*) where
  caller : Caller
  call : DispatchCall V
  type : String
  invocation : Invocation

/-- The context the caller holds. -/
def callerContext (registry : DispatchRegistry) (e : Execution V) :
    Caller → Except SurfaceDenied (HandlerContext V)
  | .handler => buildHandlerContext registry e
  | .hook h => (buildHandlerContext registry e).map (withHookEscapeHatchGrant · h.label h.escapeHatch)

/-- Whether the caller takes part in the execution: a hook must be attached to its handler. -/
def Caller.TakesPart (registry : DispatchRegistry) (type : String) : Caller → Bool
  | .handler => true
  | .hook h => (registry.hooks type).contains h

/-- The identity a call executes with: that of the context, or the one the call names. -/
def HandlerContext.run (ctx : HandlerContext V) : DispatchCall V → Option (DispatchUser V)
  | .query => (ctx.query.call ctx.user).toOption
  | .write => (ctx.write.call ctx.user).toOption
  | .queryAs asUser => ctx.queryAs.bind fun fn => (fn.call asUser).toOption
  | .writeAs asUser => ctx.writeAs.bind fun fn => (fn.call asUser).toOption

/-- Whether the dispatcher runs the named handler: it is registered, and a resolved member writes nothing.
Reference: `executeQueryInner`, `resolveWriteEntry`. -/
def DispatchRegistry.admits (registry : DispatchRegistry) (type : String) (user : DispatchUser V) :
    DispatchCall V → Bool
  | .query | .queryAs _ => (registry.getQueryHandler type).isSome
  | .write | .writeAs _ => registry.isWriteHandler type && !isMemberResolutionPrincipal user

/-- A call that gets through starts the next execution. -/
def nest (registry : DispatchRegistry) (e : Execution V) (n : Nesting V) : Option (Execution V) :=
  if n.caller.TakesPart registry e.type then
    (callerContext registry e n.caller).toOption.bind fun ctx =>
      (ctx.run n.call).bind fun user =>
        if registry.admits n.type user n.call then some ⟨n.type, user, n.invocation⟩ else none
  else none

/-- Whether the caller of the execution holds a system grant. -/
def Caller.holdsSystemGrant (registry : DispatchRegistry) (e : Execution V) : Caller → Bool
  | .handler => e.hasIdentitySwitchGrant registry
  | .hook h => (escapeHatchFor h.escapeHatch .systemIdentity).isSome

/-- The calls a chain without system grants consists of. -/
def Unprivileged (registry : DispatchRegistry) (e : Execution V) (n : Nesting V) : Prop :=
  n.caller.holdsSystemGrant registry e = false

/-- The `TenantDb`s that code holding the context reaches. -/
inductive HandlerContext.Reaches (ctx : HandlerContext V) (db : TenantDb) : Prop
  | db {contextDb : ContextDb} (h : ctx.db = some contextDb) (hmem : db ∈ contextDb.handles)
  | systemDb {systemDb : SystemDb} (h : ctx.systemDb = some systemDb) (hmem : db ∈ systemDb.handles)
  | writeTarget {target : String → Except SurfaceDenied ContextDb} {t : String} {contextDb : ContextDb}
      (h : ctx.writeTarget = some target) (ht : target t = .ok contextDb) (hmem : db ∈ contextDb.handles)

/-- That a context holds a grant: what the grant opens, a call through the context reaches. -/
def HandlerContext.Holds (ctx : HandlerContext V) : EscapeHatchGrant → Prop
  | .systemIdentity =>
    (∃ fn asUser runsAs, (ctx.queryAs = some fn ∨ ctx.writeAs = some fn) ∧ fn.call asUser = .ok runsAs ∧
      ¬ Contained ctx.user runsAs) ∨
    (∃ fn, (ctx.queryAsMember = some fn ∨ ctx.resolveActiveMembership = some fn) ∧ fn.call = .ok ()) ∨
    ∃ reader qualifiedName, ctx.queryProjection = some reader ∧ reader.spansTenants qualifiedName = true ∧
      reader.call qualifiedName true = .ok ()
  | .globalWrites => ∃ db operation table, ctx.Reaches db ∧ db.globalWrite operation table = .ok ()
  | .unsafeRaw =>
    (∃ db, ctx.Reaches db ∧ db.unsafeRaw = .ok ()) ∨ ∃ systemDb, ctx.systemDb = some systemDb ∧
      systemDb.unsafeRaw = .ok ()
  | .crossTenantReads => ctx.crossTenantReads.isSome

/-- The hook gains no grant that only the handler declared: every grant its context holds is one its own
escape hatch declares. -/
def GainsNothing (registry : DispatchRegistry) (e : Execution V) (hook : HookDef) : Prop :=
  ∀ ctx, callerContext registry e (.hook hook) = .ok ctx → ∀ grant, ctx.Holds grant →
    declaresGrant hook.escapeHatch grant = true

/-- What is promised of the chains that start with `e₀`. -/
def NeverEscalates (registry : DispatchRegistry) (e₀ : Execution V) : Prop :=
  (∀ e, Run (nest registry) (Unprivileged registry) e₀ e → Contained e₀.user e.user) ∧
    ∀ e, Run (nest registry) (fun _ _ => True) e₀ e → ∀ hook ∈ registry.hooks e.type,
      GainsNothing registry e hook

/-- The hook's own escape hatch covers what the handler's context carries over to it: `crossTenantReads`, a
write handler's `tenants.writeTarget` with the raw access and the global writes of the handler, and the view a
resolved member has of a system-scoped handler's db, which no rebind reaches. Nothing is carried over without
a database or in an agent tool call. -/
def HatchCovers (registry : DispatchRegistry) (e : Execution V) (hook : HookDef) : Prop :=
  e.invocation.hasDbSource = true → e.invocation.agentToolCall = false →
    (isMemberResolutionPrincipal e.user = false →
      (declaresGrant (registry.handlerEscapeHatch e.type) .crossTenantReads = true →
        declaresGrant hook.escapeHatch .crossTenantReads = true) ∧
      (registry.isHandlerSystemScoped e.type = false → registry.isWriteHandler e.type = true →
        (hasGrant (escapeHatchFor (registry.handlerEscapeHatch e.type) .unsafeRaw) = true →
          escapeHatchAllows hook.escapeHatch .unsafeRaw = true) ∧
        (hasGrant (escapeHatchFor (registry.writeEscapeHatch e.type) .globalWrites) = true →
          e.ownTargetWritesDenied registry = false →
          escapeHatchAllows hook.escapeHatch .globalWrites = true))) ∧
    (isMemberResolutionPrincipal e.user = true → registry.isHandlerSystemScoped e.type = true →
      hasGrant (escapeHatchFor (registry.writeEscapeHatch e.type) .globalWrites) = true →
      e.denyDbWrites = false → escapeHatchAllows hook.escapeHatch .globalWrites = true)

/-! ## Containment along a chain -/

variable {registry : DispatchRegistry} {e : Execution V} {ctx : HandlerContext V} {hook : HookDef}

private theorem ok_of_toOption {ε α : Type*} {x : Except ε α} {a : α} (h : x.toOption = some a) : x = .ok a := by
  cases x with
  | error _ => cases h
  | ok _ => cases h; rfl

/-- A hook's context is the handler's, rebuilt under the hook's escape hatch. -/
theorem callerContext_hook (h : callerContext registry e (.hook hook) = .ok ctx) :
    ∃ handlerCtx, buildHandlerContext registry e = .ok handlerCtx ∧
      ctx = withHookEscapeHatchGrant handlerCtx hook.label hook.escapeHatch := by
  cases hbuilt : buildHandlerContext registry e with
  | error _ => simp [callerContext, hbuilt, Except.map] at h
  | ok handlerCtx =>
    simp only [callerContext, hbuilt, Except.map, Except.ok.injEq] at h
    exact ⟨handlerCtx, rfl, h.symm⟩

/-- A caller's context runs as the user of its execution. -/
theorem callerContext_user {caller : Caller} (h : callerContext registry e caller = .ok ctx) :
    ctx.user = e.user := by
  cases caller with
  | handler => exact buildHandlerContext_user h
  | hook hook =>
    obtain ⟨handlerCtx, hbuilt, rfl⟩ := callerContext_hook h
    have huser : handlerCtx.user = e.user := buildHandlerContext_user hbuilt
    exact huser

/-- A caller's switch functions run for the user of its execution, with the caller's own grant. -/
theorem callerContext_runsFor {caller : Caller} (hctx : callerContext registry e caller = .ok ctx)
    {fn : SwitchFn V} (h : ctx.queryAs = some fn ∨ ctx.writeAs = some fn) :
    fn.RunsFor e.user (caller.holdsSystemGrant registry e) := by
  cases caller with
  | handler => exact buildHandlerContext_runsFor hctx h
  | hook hook =>
    obtain ⟨handlerCtx, hbuilt, rfl⟩ := callerContext_hook hctx
    exact gatedIdentitySwitchFields_runsFor (fun fn h => buildHandlerContext_runsFor hbuilt h) h

/-- What a call without a system grant executes is contained in the user of its execution. -/
theorem HandlerContext.run_contained {caller : Caller} {call : DispatchCall V} {user : DispatchUser V}
    (hctx : callerContext registry e caller = .ok ctx) (hgrant : caller.holdsSystemGrant registry e = false)
    (h : ctx.run call = some user) : Contained e.user user := by
  have hswitch : ∀ (fn : SwitchFn V) (asUser : DispatchUser V),
      (ctx.queryAs = some fn ∨ ctx.writeAs = some fn) → fn.call asUser = .ok user → Contained e.user user := by
    intro fn asUser hfn hcall
    have hfor := callerContext_runsFor hctx hfn
    rw [hgrant] at hfor
    exact hfor.contained hcall
  have hplain : ∀ fn : Ungated, (fn.call ctx.user).toOption = some user → Contained e.user user := by
    intro fn hcall
    obtain ⟨-, huser⟩ := Ungated.call_ok (ok_of_toOption hcall)
    rw [huser, callerContext_user hctx]
    exact .refl _
  cases call with
  | query => exact hplain _ h
  | write => exact hplain _ h
  | queryAs asUser =>
    obtain ⟨fn, hfn, hcall⟩ := Option.bind_eq_some_iff.1 h
    exact hswitch fn asUser (.inl hfn) (ok_of_toOption hcall)
  | writeAs asUser =>
    obtain ⟨fn, hfn, hcall⟩ := Option.bind_eq_some_iff.1 h
    exact hswitch fn asUser (.inr hfn) (ok_of_toOption hcall)

/-- One call of a chain. -/
theorem nest_contained {n : Nesting V} {e' : Execution V} (hgrant : Unprivileged registry e n)
    (h : nest registry e n = some e') : Contained e.user e'.user := by
  unfold nest at h
  split at h
  · obtain ⟨ctx, hctx, hrun⟩ := Option.bind_eq_some_iff.1 h
    obtain ⟨user, huser, hadmitted⟩ := Option.bind_eq_some_iff.1 hrun
    obtain ⟨-, ⟨⟩⟩ := Option.ite_none_right_eq_some.1 hadmitted
    exact HandlerContext.run_contained (ok_of_toOption hctx) hgrant huser
  · cases h

/-- A chain of any length and mix of handlers and hooks without a system grant stays contained in its first
caller. -/
theorem nest_run_contained {e₀ : Execution V} (h : Run (nest registry) (Unprivileged registry) e₀ e) :
    Contained e₀.user e.user := by
  refine h.invariant (I := fun e => Contained e₀.user e.user) (.refl _) ?_
  intro e n e' hcontained hgrant hnest
  exact hcontained.trans (nest_contained hgrant hnest)

/-! ## What a hook's context reaches -/

/-- Every db a hook's context reaches carries the hook's own raw grant and no global writes, or no grant, or
it is the handler's own-tenant target, or the view of a resolved member. -/
theorem hook_reaches (h : callerContext registry e (.hook hook) = .ok ctx) {db : TenantDb} (hreach : ctx.Reaches db) :
    (db.grants.globalWrites = none ∧ (db.grants.unsafeRaw = none ∨
        db.grants.unsafeRaw = escapeHatchFor hook.escapeHatch .unsafeRaw)) ∨
      (isMemberResolutionPrincipal e.user = false ∧ e.isSystem registry = false ∧
        e.invocation.hasDbSource = true ∧ registry.isWriteHandler e.type = true ∧ OwnTarget registry e db) ∨
      (isMemberResolutionPrincipal e.user = true ∧ e.isSystem registry = true ∧
        e.invocation.hasDbSource = true ∧ db = buildTenantScopedDb registry e none e.denyDbWrites) := by
  obtain ⟨handlerCtx, hbuilt, rfl⟩ := callerContext_hook h
  cases hreach with
  | db hdb hmem =>
    obtain ⟨contextDb, hcontextDb, rfl⟩ := Option.map_eq_some_iff.1 hdb
    have hgrants := regatedDb_grants (buildHandlerContext_db hbuilt hcontextDb) hmem
    exact .inl ⟨hgrants.2, .inr hgrants.1⟩
  | systemDb hdb hmem =>
    obtain ⟨systemDb, hsystemDb, rfl⟩ := Option.map_eq_some_iff.1 hdb
    obtain ⟨hsystem, hsource, hplain, hview⟩ := buildHandlerContext_systemDb hbuilt hsystemDb
    cases hmember : isMemberResolutionPrincipal e.user with
    | false =>
      left
      simp only [SystemDb.withUnsafeRawGrant, hplain hmember, SystemDb.handles, if_true, List.mem_cons,
        Option.mem_toList, Option.map_eq_some_iff] at hmem
      rcases hmem with rfl | ⟨outside, -, rfl⟩
      · exact ⟨rfl, .inr rfl⟩
      · exact ⟨rfl, .inr rfl⟩
    | true =>
      right; right
      obtain ⟨hgate, hbound, hdb'⟩ := hview hmember
      simp only [SystemDb.withUnsafeRawGrant, hgate, SystemDb.handles, hbound, Option.toList_none, ite_self,
        List.mem_singleton] at hmem
      exact ⟨rfl, hsystem, hsource, hmem.trans hdb'⟩
  | @writeTarget target tenantId contextDb htarget ht hmem =>
    have hcarried := (buildHandlerContext_carried hbuilt).2
    replace htarget : handlerCtx.writeTarget = some target := htarget
    rw [hcarried] at htarget
    cases hmember : isMemberResolutionPrincipal e.user with
    | true => simp [hmember] at htarget
    | false =>
      simp only [hmember, Bool.false_eq_true, if_false] at htarget
      have hhandles : ∃ target' contextDb', buildWriteTarget registry e = some target' ∧
          target' tenantId = .ok contextDb' ∧ db ∈ contextDb'.handles ∧
          (e.invocation.phase = .beforeTransaction → db ∈ contextDb'.withoutOutside.handles) := by
        split at htarget
        · next hphase =>
          obtain ⟨target', htarget', rfl⟩ := Option.map_eq_some_iff.1 htarget
          cases ht' : target' tenantId with
          | error _ => simp [ht', Except.map] at ht
          | ok contextDb' =>
            simp only [ht', Except.map, Except.ok.injEq] at ht
            subst ht
            refine ⟨target', contextDb', htarget', ht', ?_, fun _ => hmem⟩
            simp only [ContextDb.handles, ContextDb.withoutOutside, Option.elim_none, List.append_nil] at hmem
            exact List.mem_append_left _ hmem
        · next hphase => exact ⟨target, contextDb, htarget, ht, hmem, fun hbefore => absurd hbefore hphase⟩
      obtain ⟨target', contextDb', htarget', ht', hmem', hphase⟩ := hhandles
      obtain ⟨⟨hsystem, hsource, hwrite⟩, hown | hbare⟩ := buildWriteTarget_handles htarget' ht' hmem' hphase
      · exact .inr (.inl ⟨rfl, hsystem, hsource, hwrite, hown⟩)
      · exact .inl ⟨hbare.2, .inl hbare.1⟩

/-! ## When a hook gains a grant -/

/-- Without the hook's own grant its context switches to no identity that the user does not contain, and the
functions that need the grant refuse. -/
theorem hook_systemIdentity (h : callerContext registry e (.hook hook) = .ok ctx)
    (hholds : ctx.Holds .systemIdentity) : escapeHatchAllows hook.escapeHatch .systemIdentity = true := by
  by_contra hdenied
  have hhatch : escapeHatchFor hook.escapeHatch .systemIdentity = none := by
    rw [← Option.not_isSome_iff_eq_none, escapeHatchFor_isSome]
    exact hdenied
  have hgrant : (Caller.hook hook).holdsSystemGrant registry e = false := by
    simp [Caller.holdsSystemGrant, hhatch]
  have huser : ctx.user = e.user := callerContext_user h
  rcases hholds with ⟨fn, asUser, runsAs, hfn, hcall, hescapes⟩ | hflat | ⟨reader, name, hreader, hspans, hcall⟩
  · have hfor := callerContext_runsFor h hfn
    rw [hgrant] at hfor
    rw [huser] at hescapes
    exact hescapes (hfor.contained hcall)
  · obtain ⟨handlerCtx, hbuilt, rfl⟩ := callerContext_hook h
    obtain ⟨fn, hfn | hfn, hcall⟩ := hflat
    · obtain ⟨handlerFn, -, rfl⟩ := Option.map_eq_some_iff.1 hfn
      cases handlerFn <;> simp [gatedMemberReaderField, FlatFn.call, hhatch] at hcall
    · simp only [withHookEscapeHatchGrant, hhatch, Option.isNone_none, if_true, Option.map_eq_some_iff] at hfn
      obtain ⟨-, -, rfl⟩ := hfn
      cases hcall
  · obtain ⟨handlerCtx, hbuilt, rfl⟩ := callerContext_hook h
    obtain ⟨handlerReader, -, rfl⟩ := Option.map_eq_some_iff.1 hreader
    simp [gatedProjectionReaderField, ProjectionReader.call, hhatch] at hcall

/-- A hook holds `crossTenantReads` where the handler's context does. -/
theorem hook_crossTenantReads (h : callerContext registry e (.hook hook) = .ok ctx) :
    ctx.Holds .crossTenantReads ↔ isMemberResolutionPrincipal e.user = false ∧
      e.invocation.agentToolCall = false ∧ e.invocation.hasDbSource = true ∧
      declaresGrant (registry.handlerEscapeHatch e.type) .crossTenantReads = true := by
  obtain ⟨handlerCtx, hbuilt, rfl⟩ := callerContext_hook h
  have hkept : (withHookEscapeHatchGrant handlerCtx hook.label hook.escapeHatch).crossTenantReads =
      handlerCtx.crossTenantReads := rfl
  simp only [HandlerContext.Holds, hkept, (buildHandlerContext_carried hbuilt).1, buildHandlerCrossTenantReads,
    declaresGrant]
  cases isMemberResolutionPrincipal e.user <;> cases e.invocation.agentToolCall <;>
    cases e.invocation.hasDbSource <;> simp

/-- A hook that holds raw access declares it, or got it with the handler's own-tenant target. -/
theorem hook_unsafeRaw (h : callerContext registry e (.hook hook) = .ok ctx)
    (hcovers : HatchCovers registry e hook) (hholds : ctx.Holds .unsafeRaw) :
    escapeHatchAllows hook.escapeHatch .unsafeRaw = true := by
  rcases hholds with ⟨db, hreach, hraw⟩ | ⟨systemDb, hsystemDb, hraw⟩
  · obtain ⟨hreadOnly, hgrant⟩ := TenantDb.unsafeRaw_ok_iff.1 hraw
    rcases hook_reaches h hreach with ⟨-, hnone | hown⟩ | ⟨hmember, hsystem, hsource, hwrite, denyWrites, rfl, -⟩ |
      ⟨hmember, -, -, rfl⟩
    · rw [hnone] at hgrant
      cases hgrant
    · rw [hown] at hgrant
      exact escapeHatchAllows_of_hasGrant hgrant
    · cases hagent : e.invocation.agentToolCall with
      | true =>
        rw [(buildTenantScopedDb_bare (.inl hagent)).1] at hgrant
        cases hgrant
      | false =>
        rw [buildTenantScopedDb_own hagent] at hgrant
        have hscoped : registry.isHandlerSystemScoped e.type = false := by
          simpa [Execution.isSystem, DispatchRegistry.isEffectivelySystemScoped,
            DispatchRegistry.isGlobalEntityReadInAgentToolCall, hagent] using hsystem
        exact (((hcovers hsource hagent).1 hmember).2 hscoped hwrite).1 hgrant
    · rw [show (buildTenantScopedDb registry e none e.denyDbWrites).grants.memberReadOnly =
        isMemberResolutionPrincipal e.user from rfl, hmember] at hreadOnly
      cases hreadOnly
  · obtain ⟨handlerCtx, hbuilt, rfl⟩ := callerContext_hook h
    obtain ⟨handlerSystemDb, hhandler, rfl⟩ := Option.map_eq_some_iff.1 hsystemDb
    obtain ⟨-, -, hplain, hview⟩ := buildHandlerContext_systemDb hbuilt hhandler
    cases hmember : isMemberResolutionPrincipal e.user with
    | false =>
      simp only [SystemDb.withUnsafeRawGrant, hplain hmember, SystemDb.unsafeRaw] at hraw
      split at hraw
      · next hgrant => exact escapeHatchAllows_of_hasGrant hgrant
      · cases hraw
    | true =>
      obtain ⟨hgate, -, hdb⟩ := hview hmember
      simp only [SystemDb.withUnsafeRawGrant, hgate, SystemDb.unsafeRaw, hdb] at hraw
      obtain ⟨hreadOnly, -⟩ := TenantDb.unsafeRaw_ok_iff.1 hraw
      rw [show (buildTenantScopedDb registry e none e.denyDbWrites).grants.memberReadOnly =
        isMemberResolutionPrincipal e.user from rfl, hmember] at hreadOnly
      cases hreadOnly

/-- A hook's own rebinds carry no global writes, so what it holds of them is the handler's. -/
theorem hook_globalWrites (h : callerContext registry e (.hook hook) = .ok ctx)
    (hcovers : HatchCovers registry e hook) (hholds : ctx.Holds .globalWrites) :
    escapeHatchAllows hook.escapeHatch .globalWrites = true := by
  obtain ⟨db, operation, table, hreach, hwrite⟩ := hholds
  obtain ⟨hopen, hgrant⟩ := TenantDb.globalWrite_ok_iff.1 hwrite
  rcases hook_reaches h hreach with ⟨hnone, -⟩ | ⟨hmember, hsystem, hsource, hwriteHandler, denyWrites, rfl, hdeny⟩ |
    ⟨hmember, hsystem, hsource, rfl⟩
  · rw [hnone] at hgrant
    cases hgrant
  all_goals cases hagent : e.invocation.agentToolCall with
    | true =>
      rw [(buildTenantScopedDb_bare (.inl hagent)).2] at hgrant
      cases hgrant
    | false => ?_
  all_goals
    rw [buildTenantScopedDb_own hagent] at hgrant hopen
    simp only [Execution.isSystem, DispatchRegistry.isEffectivelySystemScoped,
      DispatchRegistry.isGlobalEntityReadInAgentToolCall, hagent, Bool.false_and, Bool.not_false,
      Bool.and_true] at hsystem
  · have hwrites : denyWrites = false := by simpa using hopen
    exact (((hcovers hsource hagent).1 hmember).2 hsystem hwriteHandler).2 hgrant (hdeny hwrites)
  · have hwrites : e.denyDbWrites = false := by simpa using hopen
    exact (hcovers hsource hagent).2 hmember hsystem hgrant hwrites

/-- What the hook of a write handler reaches through `tenants.writeTarget`. -/
theorem hook_reaches_ownTarget (h : callerContext registry e (.hook hook) = .ok ctx)
    (hmember : isMemberResolutionPrincipal e.user = false) (hsystem : e.isSystem registry = false)
    (hsource : e.invocation.hasDbSource = true) (hwrite : registry.isWriteHandler e.type = true) :
    ∃ denyWrites, ctx.Reaches (buildTenantScopedDb registry e none denyWrites) ∧
      (e.ownTargetWritesDenied registry = false → denyWrites = false) := by
  obtain ⟨handlerCtx, hbuilt, rfl⟩ := callerContext_hook h
  obtain ⟨exposed, hexposed⟩ : ∃ exposed, exposedDb registry e = some exposed := by
    simp [exposedDb, facetDb, hsource]
  obtain ⟨denyWrites, hmem, hphase, hdeny⟩ := ownTenantDb_handle hsystem hexposed
  have hcarried := (buildHandlerContext_carried hbuilt).2
  simp only [hmember, Bool.false_eq_true, if_false] at hcarried
  refine ⟨denyWrites, ?_, hdeny⟩
  have hoffered : buildWriteTarget registry e = some _ :=
    if_pos (by simp [hsystem, hsource, hwrite])
  rw [hoffered] at hcarried
  split at hcarried
  · next hbefore =>
    refine .writeTarget (t := e.user.tenantId) hcarried ?_ (hphase hbefore)
    simp only [beq_self_eq_true, hexposed]
    rfl
  · refine .writeTarget (t := e.user.tenantId) hcarried ?_ hmem
    simp only [beq_self_eq_true, hexposed]

/-- What a hook reaches through a resolved member's view: no rebind stands between. -/
theorem hook_reaches_view (h : callerContext registry e (.hook hook) = .ok ctx)
    (hmember : isMemberResolutionPrincipal e.user = true) (hsystem : e.isSystem registry = true)
    (hsource : e.invocation.hasDbSource = true) :
    ctx.Reaches (buildTenantScopedDb registry e none e.denyDbWrites) := by
  obtain ⟨handlerCtx, hbuilt, rfl⟩ := callerContext_hook h
  have hfacet : (memberSafeContext (plainContext registry e)).systemDb =
      some ⟨buildTenantScopedDb registry e none e.denyDbWrites, none, true, .sourceTenantDb⟩ := by
    have hplain : (memberSafeContext (plainContext registry e)).systemDb = facetSystemDb registry e := by
      unfold memberSafeContext
      split <;> rfl
    rw [hplain]
    simp [facetSystemDb, facetDb, hsystem, hsource, hmember]
  obtain ⟨kept, hkept, hgate, hdb⟩ := phasedContext_systemDb e.invocation.phase hfacet
  rw [← (buildHandlerContext_ok hbuilt).2] at hkept
  have hhook : (withHookEscapeHatchGrant handlerCtx hook.label hook.escapeHatch).systemDb = some kept := by
    simp [withHookEscapeHatchGrant, hkept, SystemDb.withUnsafeRawGrant, hgate]
  refine .systemDb hhook ?_
  rw [SystemDb.handles, hdb]
  exact List.mem_cons_self

/-- A hook gains nothing exactly where its own escape hatch covers what its context carries over. -/
theorem gainsNothing_iff : GainsNothing registry e hook ↔ HatchCovers registry e hook := by
  constructor
  · intro hgains hsource hagent
    have hscope : e.isSystem registry = registry.isHandlerSystemScoped e.type := by
      simp [Execution.isSystem, DispatchRegistry.isEffectivelySystemScoped,
        DispatchRegistry.isGlobalEntityReadInAgentToolCall, hagent]
    have hbuilt : buildHandlerContext registry e =
        .ok (phasedContext e.invocation.phase (memberSafeContext (plainContext registry e))) := by
      simp [buildHandlerContext, hagent]
    obtain ⟨ctx, hctx⟩ : ∃ ctx, callerContext registry e (.hook hook) = .ok ctx :=
      ⟨_, by simp only [callerContext, hbuilt]; rfl⟩
    refine ⟨fun hmember => ⟨fun hreads => ?_, fun hscoped hwrite => ?_⟩, fun hmember hscoped hgrant hopen => ?_⟩
    · exact hgains ctx hctx .crossTenantReads
        ((hook_crossTenantReads hctx).2 ⟨hmember, hagent, hsource, hreads⟩)
    · obtain ⟨denyWrites, hreach, hdeny⟩ :=
        hook_reaches_ownTarget hctx hmember (hscope.trans hscoped) hsource hwrite
      refine ⟨fun hgrant => ?_, fun hgrant hopen => ?_⟩
      · refine hgains ctx hctx .unsafeRaw (.inl ⟨_, hreach, TenantDb.unsafeRaw_ok_iff.2 ?_⟩)
        rw [buildTenantScopedDb_own hagent]
        exact ⟨hmember, hgrant⟩
      · refine hgains ctx hctx .globalWrites ⟨_, "insertOne", "", hreach, TenantDb.globalWrite_ok_iff.2 ?_⟩
        rw [buildTenantScopedDb_own hagent, hdeny hopen]
        exact ⟨rfl, hgrant⟩
    · have hreach := hook_reaches_view hctx hmember (hscope.trans hscoped) hsource
      refine hgains ctx hctx .globalWrites ⟨_, "insertOne", "", hreach, TenantDb.globalWrite_ok_iff.2 ?_⟩
      rw [buildTenantScopedDb_own hagent, hopen]
      exact ⟨rfl, hgrant⟩
  · intro hcovers ctx hctx grant hholds
    cases grant with
    | systemIdentity => exact hook_systemIdentity hctx hholds
    | globalWrites => exact hook_globalWrites hctx hcovers hholds
    | unsafeRaw => exact hook_unsafeRaw hctx hcovers hholds
    | crossTenantReads =>
      obtain ⟨hmember, hagent, hsource, hreads⟩ := (hook_crossTenantReads hctx).1 hholds
      exact ((hcovers hsource hagent).1 hmember).1 hreads

/-- Chains of executions never escalate exactly where, in every execution they reach, each attached hook's own
escape hatch covers what the handler's context carries over to it. -/
theorem neverEscalates_iff (registry : DispatchRegistry) (e₀ : Execution V) :
    NeverEscalates registry e₀ ↔
      ∀ e, Run (nest registry) (fun _ _ => True) e₀ e → ∀ hook ∈ registry.hooks e.type,
        HatchCovers registry e hook := by
  constructor
  · intro hnever e hrun hook hhook
    exact gainsNothing_iff.1 (hnever.2 e hrun hook hhook)
  · intro hcovers
    refine ⟨fun e hrun => nest_run_contained hrun, fun e hrun hook hhook => ?_⟩
    exact gainsNothing_iff.2 (hcovers e hrun hook hhook)

end

/-- A query handler that declares cross-tenant reads, with a hook that declares nothing. -/
def auditRegistry : DispatchRegistry where
  getWriteHandler _ := none
  getQueryHandler type :=
    if type = "audit:query:log" then some ⟨some ⟨"platform audit log", some [.crossTenantReads]⟩, false⟩ else none
  getStreamHandler _ := none
  isHandlerSystemScoped _ := false
  getHandlerEntity _ := none
  isGlobalEntity _ := false
  projectionTenantColumn _ := none
  hooks type := if type = "audit:query:log" then [⟨"postQuery hook of feature \"notes\"", none⟩] else []

/-- A plain user reads the log. -/
def auditExecution : Execution String :=
  ⟨"audit:query:log", ⟨"u1", "t1", ["User"], none, none⟩, ⟨true, false, false, .withoutTransaction, .handler⟩⟩

/-- The hook reads across tenants on the handler's declaration alone. -/
theorem auditExecution_escalates : ¬ NeverEscalates auditRegistry auditExecution := by
  intro hnever
  have hgains := hnever.2 auditExecution .start ⟨"postQuery hook of feature \"notes\"", none⟩ (by decide)
  have hdeclared := hgains _ rfl .crossTenantReads (show Option.isSome _ = true from rfl)
  exact absurd hdeclared (by decide)

end Kumiko
