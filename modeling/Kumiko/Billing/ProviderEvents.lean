import Kumiko.Library.Run
import Mathlib.Data.Int.Notation
import Mathlib.Data.List.Nodup

/-!
# Events of a billing provider

`billing-foundation/handlers/process-event.write.ts` and `projection.ts` for one tenant, under the lock of its
subscription stream. Within one subscription the filters leave the newest event, in whatever order the events
come; an event of another subscription is refused for good, or replaces the row whatever its time
(`delivery_order_matters`). `row_of_newest` says when the row is that of the newest event.
-/

namespace Kumiko

open Transition

/-! ## Payloads -/

inductive SubscriptionEventType where
  | created
  | updated
  | canceled
  | invoicePaid
  | invoicePaymentFailed
  deriving DecidableEq

/-- Reference: `STATE_EVENT_TYPES`. -/
def SubscriptionEventType.IsState : SubscriptionEventType → Prop
  | created | updated | canceled => True
  | invoicePaid | invoicePaymentFailed => False

instance : DecidablePred SubscriptionEventType.IsState := fun type => by
  cases type <;> unfold SubscriptionEventType.IsState <;> infer_instance

inductive SubscriptionStatus where
  | active
  | trialing
  | pastDue
  | canceled
  | incomplete
  deriving DecidableEq

def isSwitchableSubscriptionStatus : SubscriptionStatus → Bool
  | .active | .trialing | .pastDue => true
  | .canceled | .incomplete => false

/-- A normalized event, with times in milliseconds. In `cancelAt` a provider that does not report it is told apart from
one that reports that the subscription renews. Reference: `processEventSchema`. -/
structure ProcessEventPayload where
  providerEventId : String
  providerName : String
  type : SubscriptionEventType
  providerCustomerId : String
  providerSubscriptionId : String
  status : SubscriptionStatus
  tier : String
  currentPeriodEnd : String
  cancelAt : Option (Option String)
  providerEventAt : Option ℤ
  providerCheckoutId : Option String
  deriving DecidableEq

inductive CheckoutMode where
  | subscription
  | payment
  deriving DecidableEq

/-- Reference: `checkoutOpenedPayloadSchema`. -/
structure CheckoutOpened where
  providerName : String
  providerCheckoutId : String
  priceId : String
  mode : CheckoutMode
  consentId : Option String

/-- What an event carries of it. Reference: `checkoutConsentRecordedPayloadSchema`. -/
structure CheckoutConsent where
  consentId : String
  mode : CheckoutMode
  tier : Option String
  providerName : Option String
  createdAt : ℤ

/-- An event of the stream. Reference: `SubscriptionEventPayload` and its headers. -/
inductive BillingEvent where
  | checkoutOpened (entry : CheckoutOpened)
  | consentRecorded (consent : CheckoutConsent)
  | provider (payload : ProcessEventPayload) (consentId : Option String)

/-- A stored provider event. -/
def BillingEvent.payload : BillingEvent → Option ProcessEventPayload
  | provider payload _ => some payload
  | checkoutOpened _ | consentRecorded _ => none

/-! ## The row -/

/-- The columns of the subscription. -/
structure SubscriptionColumns where
  providerName : String
  providerCustomerId : String
  providerSubscriptionId : String
  status : SubscriptionStatus
  tier : String
  currentPeriodEnd : String
  cancelAt : Option String

structure SubscriptionRow where
  columns : SubscriptionColumns
  modifiedAt : ℤ

namespace ProcessEventPayload

variable (p : ProcessEventPayload)

/-- The columns of a row that an event inserts. -/
def columns : SubscriptionColumns :=
  ⟨p.providerName, p.providerCustomerId, p.providerSubscriptionId, p.status, p.tier, p.currentPeriodEnd,
    p.cancelAt.getD none⟩

/-- Reference: `cancelAtSetFromPayload`. -/
def setCancelAt (c : SubscriptionColumns) : SubscriptionColumns := { c with cancelAt := p.cancelAt.getD c.cancelAt }

/-- Reference: `applyFullSubscriptionState`. -/
def setFull (c : SubscriptionColumns) : SubscriptionColumns :=
  p.setCancelAt { c with
    providerName := p.providerName
    providerCustomerId := p.providerCustomerId
    providerSubscriptionId := p.providerSubscriptionId
    status := p.status
    tier := p.tier
    currentPeriodEnd := p.currentPeriodEnd }

/-- Reference: `applyStatusTierPeriodPatch`. -/
def setStatusTierPeriod (c : SubscriptionColumns) : SubscriptionColumns :=
  p.setCancelAt { c with status := p.status, tier := p.tier, currentPeriodEnd := p.currentPeriodEnd }

/-- Reference: `applyInvoicePaymentFailed`. -/
def setStatusTier (c : SubscriptionColumns) : SubscriptionColumns :=
  p.setCancelAt { c with status := p.status, tier := p.tier }

/-- What an event sets in a row that is there. -/
def set (c : SubscriptionColumns) : SubscriptionColumns :=
  match p.type with
  | .created | .updated => p.setFull c
  | .canceled | .invoicePaid => p.setStatusTierPeriod c
  | .invoicePaymentFailed => p.setStatusTier c

/-- Reference: `upsert`. -/
def applyTo (createdAt : ℤ) (row : Option SubscriptionRow) : SubscriptionRow :=
  match row with
  | none => ⟨p.columns, createdAt⟩
  | some row => ⟨p.set row.columns, createdAt⟩

end ProcessEventPayload

/-! ## The filters -/

def minuteMs : ℤ := 60 * 1000

/-- Reference: `STALE_INCOMPLETE_AFTER`. -/
def STALE_INCOMPLETE_AFTER : ℤ := 24 * 60 * minuteMs

def PROVIDER_EVENT_CLOCK_SKEW_SECONDS : ℤ := 300

def SWITCH_CONSENT_MAX_AGE_HOURS : ℤ := 24

def MISSING_SUBSCRIPTION_RETRY_WINDOW_MINUTES : ℤ := 60

def isSubscriptionBlockingCheckout (sub : SubscriptionRow) (now : ℤ) : Bool :=
  match sub.columns.status with
  | .canceled => false
  | .incomplete => now < sub.modifiedAt + STALE_INCOMPLETE_AFTER
  | _ => true

/-- Reference: `sameSubscription`. -/
def SubscriptionRow.IsOf (row : SubscriptionRow) (p : ProcessEventPayload) : Prop :=
  row.columns.providerName = p.providerName ∧ row.columns.providerSubscriptionId = p.providerSubscriptionId

instance (row : SubscriptionRow) (p : ProcessEventPayload) : Decidable (row.IsOf p) :=
  inferInstanceAs (Decidable (_ ∧ _))

def hasSeenProviderEvent (stored : List BillingEvent) (p : ProcessEventPayload) : Bool :=
  stored.any fun e => e.payload.any fun p' =>
    p'.providerEventId = p.providerEventId && p'.providerName = p.providerName

/-- A newer event of the provider is stored, or a cancellation of the same time. -/
def isLateStateEvent (stored : List BillingEvent) (p : ProcessEventPayload) : Bool :=
  p.providerEventAt.any fun incoming => decide p.type.IsState && stored.any fun e => e.payload.any fun p' =>
    p'.providerName = p.providerName && p'.providerEventAt.any fun storedAt =>
      if storedAt = incoming then p'.status = .canceled && p.status ≠ .canceled else incoming < storedAt

/-- A time that is far in the future counts as the latest that is accepted. -/
def clampProviderEventAt (p : ProcessEventPayload) (now : ℤ) : ProcessEventPayload :=
  { p with providerEventAt := p.providerEventAt.map (min · (now + PROVIDER_EVENT_CLOCK_SKEW_SECONDS * 1000)) }

def isStaleSubscriptionEvent (current : Option SubscriptionRow) (p : ProcessEventPayload) (now : ℤ) : Bool :=
  match current with
  | none => false
  | some row =>
    if row.IsOf p ∨ isSubscriptionBlockingCheckout row now = false then false
    else !(p.type = .created && isSwitchableSubscriptionStatus p.status)

def findCheckoutOpened (stored : List BillingEvent) (providerName providerCheckoutId : String) : Option CheckoutOpened :=
  stored.findSome? fun
    | .checkoutOpened entry =>
      if entry.providerName = providerName ∧ entry.providerCheckoutId = providerCheckoutId ∧ entry.mode = .subscription
      then some entry else none
    | _ => none

def providerEventInstant (p : ProcessEventPayload) (now : ℤ) : ℤ := (clampProviderEventAt p now).providerEventAt.getD now

/-- The newest recorded consent to the tier that no stored state event carries. -/
def pendingSwitchConsentId (stored : List BillingEvent) (p : ProcessEventPayload) (now : ℤ) : Option String :=
  let oldestAcceptedAt := providerEventInstant p now - SWITCH_CONSENT_MAX_AGE_HOURS * 60 * minuteMs
  let carried := stored.filterMap fun
    | .provider payload consentId => if payload.type.IsState then consentId else none
    | _ => none
  stored.reverse.findSome? fun
    | .consentRecorded consent =>
      if oldestAcceptedAt ≤ consent.createdAt ∧ consent.mode = .subscription ∧ consent.tier = some p.tier ∧
        consent.providerName.all (· = p.providerName) ∧ consent.consentId ∉ carried
      then some consent.consentId else none
    | _ => none

def isWithinMissingSubscriptionRetryWindow (p : ProcessEventPayload) (now : ℤ) : Bool :=
  p.providerEventAt.isNone || now - MISSING_SUBSCRIPTION_RETRY_WINDOW_MINUTES * minuteMs ≤ providerEventInstant p now

inductive IgnoredEventReason where
  | checkoutNotInLedger
  | foreignSubscription
  | subscriptionNotYetCreated

inductive Admission where
  | admitted (consentId : Option String)
  | refused (reason : IgnoredEventReason) (retry : Bool)

/-- The prices of each provider. Reference: `plugin.priceToTier`. -/
abbrev PriceToTier := String → String → Option String

/-- The entry of the ledger that the event names, where its price is of the event's tier.
Reference: `isBoundToLedgerEntry`. -/
def boundEntry (priceToTier : PriceToTier) (stored : List BillingEvent) (p : ProcessEventPayload) : Option CheckoutOpened :=
  (p.providerCheckoutId.bind (findCheckoutOpened stored p.providerName)).filter
    fun entry => priceToTier p.providerName entry.priceId = some p.tier

def admitProviderEvent (priceToTier : PriceToTier) (stored : List BillingEvent) (current : Option SubscriptionRow)
    (p : ProcessEventPayload) (now : ℤ) : Admission :=
  match boundEntry priceToTier stored p with
  | some entry => .admitted entry.consentId
  | none =>
    if p.type = .created then .refused .checkoutNotInLedger false
    else match current with
      | none => .refused .subscriptionNotYetCreated (isWithinMissingSubscriptionRetryWindow p now)
      | some row =>
        if row.IsOf p then
          .admitted (if p.type = .updated ∧ row.columns.tier ≠ p.tier then pendingSwitchConsentId stored p now else none)
        else .refused .foreignSubscription false

/-! ## Deliveries -/

/-- The answer to a delivery. -/
inductive ProviderAnswer where
  | ignored (reason : IgnoredEventReason) (retry : Bool)
  | stale
  | duplicate
  | late
  | stored

/-- The stream and the row of the tenant, and the events that have been answered without a demand to come again. -/
structure BillingStore where
  stream : List BillingEvent
  row : Option SubscriptionRow
  answered : List ProcessEventPayload

inductive BillingAct where
  | openCheckout (entry : CheckoutOpened)
  | recordConsent (consent : CheckoutConsent)
  /-- A delivery, by the clock of the handler and that of the database. -/
  | deliver (now createdAt : ℤ) (p : ProcessEventPayload)

namespace BillingStore

variable (priceToTier : PriceToTier) (s : BillingStore)

def initial : BillingStore := ⟨[], none, []⟩

/-- Reference: `appendSubscriptionEvent`. -/
def appendSubscriptionEvent (now createdAt : ℤ) (rawPayload : ProcessEventPayload) (consentId : Option String) :
    ProviderAnswer × BillingStore :=
  let p := clampProviderEventAt rawPayload now
  if hasSeenProviderEvent s.stream p then (.duplicate, s)
  else if isLateStateEvent s.stream p then (.late, s)
  else (.stored, { s with stream := s.stream ++ [.provider p consentId], row := some (p.applyTo createdAt s.row) })

/-- Reference: `createProcessEventHandler`. -/
def processEvent (now createdAt : ℤ) (p : ProcessEventPayload) : ProviderAnswer × BillingStore :=
  match admitProviderEvent priceToTier s.stream s.row p now with
  | .refused reason retry => (.ignored reason retry, s)
  | .admitted consentId =>
    if isStaleSubscriptionEvent s.row p now then (.stale, s) else s.appendSubscriptionEvent now createdAt p consentId

/-- The provider delivers an event again that is answered with a retry. -/
def settle (p : ProcessEventPayload) : ProviderAnswer × BillingStore → BillingStore
  | (.ignored _ true, s) => s
  | (_, s) => { s with answered := s.answered ++ [p] }

def step : BillingAct → Option BillingStore
  | .openCheckout entry => some { s with stream := s.stream ++ [.checkoutOpened entry] }
  | .recordConsent consent => some { s with stream := s.stream ++ [.consentRecorded consent] }
  | .deliver now createdAt p => some (settle p (s.processEvent priceToTier now createdAt p))

end BillingStore

/-! ## Sets of events -/

/-- The provider's time of an event. -/
def ProcessEventPayload.eventAt (p : ProcessEventPayload) : ℤ := p.providerEventAt.getD 0

/-- State events of a provider, each with its own time and its own id. -/
structure ProviderStateEvents (events : List ProcessEventPayload) : Prop where
  state : ∀ p ∈ events, p.type.IsState
  timed : ∀ p ∈ events, p.providerEventAt.isSome = true
  times : ∀ p ∈ events, ∀ p' ∈ events, p.eventAt = p'.eventAt → p = p'
  ids : ∀ p ∈ events, ∀ p' ∈ events, p.providerName = p'.providerName → p.providerEventId = p'.providerEventId → p = p'

def Newest (events : List ProcessEventPayload) (p : ProcessEventPayload) : Prop :=
  p ∈ events ∧ ∀ p' ∈ events, p'.eventAt ≤ p.eventAt

/-- The newest event says when the subscription ends, or no event does. -/
def ReportsCancelAt (events : List ProcessEventPayload) : Prop :=
  (∀ p, Newest events p → p.cancelAt.isSome = true) ∨ ∀ p ∈ events, p.cancelAt = none

/-- The provider events of a stream, in their order. -/
def storedEvents (stream : List BillingEvent) : List ProcessEventPayload := stream.filterMap BillingEvent.payload

namespace BillingStore

variable (priceToTier : PriceToTier) (events : List ProcessEventPayload) (s : BillingStore)

/-- A delivery of one of the events, within the window in which it is asked for again. -/
structure Delivers (now : ℤ) (p : ProcessEventPayload) : Prop where
  mem : p ∈ events
  ledger : p.type = .created → (boundEntry priceToTier s.stream p).isSome = true
  window : isWithinMissingSubscriptionRetryWindow p now = true

/-- The newest event is not refused where the row is of another subscription, and no older one takes such a row over. -/
structure InOrder (now : ℤ) (p : ProcessEventPayload) : Prop where
  skew : p.eventAt ≤ now + PROVIDER_EVENT_CLOCK_SKEW_SECONDS * 1000
  newest : Newest events p → ∀ row, s.row = some row → ¬row.IsOf p →
    (boundEntry priceToTier s.stream p).isSome = true ∧ isStaleSubscriptionEvent s.row p now = false
  takesOver : ∀ row, s.row = some row → ¬row.IsOf p → (boundEntry priceToTier s.stream p).isSome = true →
    isStaleSubscriptionEvent s.row p now = false → hasSeenProviderEvent s.stream p = false →
    isLateStateEvent s.stream p = false → p.type ≠ .canceled ∧ ∀ p' ∈ storedEvents s.stream, p'.eventAt < p.eventAt
  customer : ∀ row, s.row = some row → row.IsOf p → p.type = .canceled →
    row.columns.providerCustomerId = p.providerCustomerId

/-- The deliveries are of the events. -/
def Delivered : BillingAct → Prop
  | .deliver now _ p => s.Delivers priceToTier events now p
  | .openCheckout _ | .recordConsent _ => True

/-- The deliveries are of the events, and meet the condition. -/
def Ordered : BillingAct → Prop
  | .deliver now _ p => s.Delivers priceToTier events now p ∧ s.InOrder priceToTier events now p
  | .openCheckout _ | .recordConsent _ => True

/-- The row shows the last event of the stream, and the stream the newest of those that have been answered. -/
structure BillingInv : Prop where
  mem : ∀ p ∈ storedEvents s.stream, p ∈ events
  increasing : (storedEvents s.stream).Pairwise fun p p' => p.eventAt < p'.eventAt
  absent : s.row = none → storedEvents s.stream = []
  row : ∀ row, s.row = some row → ∃ older last, storedEvents s.stream = older ++ [last] ∧
    row.columns = { last.columns with cancelAt := last.cancelAt.getD row.columns.cancelAt }
  unreported : (∀ p ∈ events, p.cancelAt = none) → ∀ row, s.row = some row → row.columns.cancelAt = none
  newest : ∀ p ∈ s.answered, Newest events p → p ∈ storedEvents s.stream

/-- No event is stored twice, and none after a newer one. -/
structure StoredOnce : Prop where
  once : ((storedEvents s.stream).map fun p => (p.providerName, p.providerEventId)).Nodup
  increasing : (storedEvents s.stream).Pairwise fun p p' => p.eventAt < p'.eventAt

end BillingStore

/-! ## The filters on a set of events -/

section
variable {events : List ProcessEventPayload} {stream : List BillingEvent} {p p' : ProcessEventPayload} {now : ℤ}
  {row : SubscriptionRow} {priceToTier : PriceToTier}

theorem exists_newest (hne : events ≠ []) : ∃ p, Newest events p := by
  induction events with
  | nil => exact absurd rfl hne
  | cons q rest ih =>
    by_cases hrest : rest = []
    · subst hrest
      refine ⟨q, List.mem_cons_self, fun p' hp' => ?_⟩
      exact Int.le_of_eq (congrArg _ (List.mem_singleton.1 hp'))
    · obtain ⟨p, hmem, hmax⟩ := ih hrest
      by_cases hle : p.eventAt ≤ q.eventAt
      · refine ⟨q, List.mem_cons_self, fun p' hp' => ?_⟩
        rcases List.mem_cons.1 hp' with rfl | hp'
        · exact Int.le_refl _
        · exact Int.le_trans (hmax p' hp') hle
      · refine ⟨p, List.mem_cons_of_mem _ hmem, fun p' hp' => ?_⟩
        rcases List.mem_cons.1 hp' with rfl | hp'
        · omega
        · exact hmax p' hp'

theorem mem_storedEvents : p ∈ storedEvents stream ↔ ∃ e ∈ stream, e.payload = some p := List.mem_filterMap

theorem eventAt_of_some {at' : ℤ} (h : p.providerEventAt = some at') : p.eventAt = at' := by
  rw [ProcessEventPayload.eventAt, h]
  rfl

/-- A time that is not in the future is left as it is. -/
theorem clampProviderEventAt_eq (htimed : p.providerEventAt.isSome = true)
    (hskew : p.eventAt ≤ now + PROVIDER_EVENT_CLOCK_SKEW_SECONDS * 1000) : clampProviderEventAt p now = p := by
  obtain ⟨at', hat⟩ := Option.isSome_iff_exists.1 htimed
  rw [eventAt_of_some hat] at hskew
  rw [clampProviderEventAt, hat, Option.map_some, Int.min_eq_left hskew, ← hat]

theorem seen_iff (hids : ProviderStateEvents events) (hmem : ∀ p ∈ storedEvents stream, p ∈ events) (hp : p ∈ events) :
    hasSeenProviderEvent stream p = true ↔ p ∈ storedEvents stream := by
  rw [hasSeenProviderEvent, List.any_eq_true, mem_storedEvents]
  constructor
  · rintro ⟨e, he, hseen⟩
    obtain ⟨p', hp', hsame⟩ := (Option.any_eq_true _ _).1 hseen
    obtain ⟨hid, hname⟩ := Bool.and_eq_true_iff.1 hsame
    obtain rfl := hids.ids p' (hmem p' (mem_storedEvents.2 ⟨e, he, hp'⟩)) p hp (of_decide_eq_true hname)
      (of_decide_eq_true hid)
    exact ⟨e, he, hp'⟩
  · rintro ⟨e, he, hp'⟩
    exact ⟨e, he, (Option.any_eq_true _ _).2 ⟨p, hp', by rw [decide_eq_true rfl, decide_eq_true rfl]; rfl⟩⟩

/-- Among events with a time of their own, an event that is not stored is late where a newer one of its provider is. -/
theorem late_iff (hids : ProviderStateEvents events) (hmem : ∀ p ∈ storedEvents stream, p ∈ events) (hp : p ∈ events)
    (hnew : p ∉ storedEvents stream) :
    isLateStateEvent stream p = true ↔
      ∃ p' ∈ storedEvents stream, p'.providerName = p.providerName ∧ p.eventAt < p'.eventAt := by
  obtain ⟨at', hat⟩ := Option.isSome_iff_exists.1 (hids.timed p hp)
  rw [isLateStateEvent, hat, Option.any_some, decide_eq_true (hids.state p hp), Bool.true_and, List.any_eq_true,
    eventAt_of_some hat]
  constructor
  · rintro ⟨e, he, hlate⟩
    obtain ⟨p', hp', hboth⟩ := (Option.any_eq_true _ _).1 hlate
    obtain ⟨hname, hlater⟩ := Bool.and_eq_true_iff.1 hboth
    obtain ⟨storedAt, hstoredAt, hlater⟩ := (Option.any_eq_true _ _).1 hlater
    have hstored : p' ∈ storedEvents stream := mem_storedEvents.2 ⟨e, he, hp'⟩
    refine ⟨p', hstored, of_decide_eq_true hname, ?_⟩
    rw [eventAt_of_some hstoredAt]
    split at hlater
    · next heq =>
      obtain rfl := hids.times p' (hmem p' hstored) p hp
        ((eventAt_of_some hstoredAt).trans (heq.trans (eventAt_of_some hat).symm))
      exact absurd hstored hnew
    · exact of_decide_eq_true hlater
  · rintro ⟨p', hstored, hname, hlater⟩
    obtain ⟨e, he, hp'⟩ := mem_storedEvents.1 hstored
    obtain ⟨storedAt, hstoredAt⟩ := Option.isSome_iff_exists.1 (hids.timed p' (hmem p' hstored))
    rw [eventAt_of_some hstoredAt] at hlater
    refine ⟨e, he, (Option.any_eq_true _ _).2 ⟨p', hp', ?_⟩⟩
    rw [decide_eq_true hname, hstoredAt, Option.any_some, if_neg (by omega), decide_eq_true hlater]
    rfl

/-- An event is admitted for the row of another subscription by its checkout only. -/
theorem bound_of_admitted {consentId : Option String}
    (h : admitProviderEvent priceToTier stream (some row) p now = .admitted consentId) (hother : ¬row.IsOf p) :
    (boundEntry priceToTier stream p).isSome = true := by
  rw [admitProviderEvent] at h
  cases hbound : boundEntry priceToTier stream p with
  | some entry => rfl
  | none =>
    simp only [hbound] at h
    by_cases hcreated : p.type = .created
    · rw [if_pos hcreated] at h
      cases h
    · rw [if_neg hcreated, if_neg hother] at h
      cases h

/-- The event that a row shows when it has been applied. -/
theorem columns_set (hstate : p.type.IsState) {c : SubscriptionColumns}
    (hcanceled : p.type = .canceled → (c.providerName = p.providerName ∧
      c.providerSubscriptionId = p.providerSubscriptionId) ∧ c.providerCustomerId = p.providerCustomerId) :
    p.set c = { p.columns with cancelAt := p.cancelAt.getD c.cancelAt } := by
  cases htype : p.type with
  | created => simp only [ProcessEventPayload.set, htype]; rfl
  | updated => simp only [ProcessEventPayload.set, htype]; rfl
  | canceled =>
    obtain ⟨⟨hname, hsub⟩, hcustomer⟩ := hcanceled htype
    simp only [ProcessEventPayload.set, htype, ProcessEventPayload.setStatusTierPeriod, ProcessEventPayload.setCancelAt,
      ProcessEventPayload.columns, hname, hsub, hcustomer]
  | invoicePaid => rw [htype] at hstate; exact hstate.elim
  | invoicePaymentFailed => rw [htype] at hstate; exact hstate.elim

end

/-! ## Deliveries of a set of events -/

namespace BillingStore

variable {priceToTier : PriceToTier} {events : List ProcessEventPayload} {s s' : BillingStore} {now createdAt : ℤ}
  {p : ProcessEventPayload}

theorem BillingInv.answer (h : BillingInv events s) (hnewest : Newest events p → p ∈ storedEvents s.stream) :
    BillingInv events { s with answered := s.answered ++ [p] } := by
  refine ⟨h.mem, h.increasing, h.absent, h.row, h.unreported, fun p' hp' hn => ?_⟩
  rcases List.mem_append.1 hp' with hp' | hp'
  · exact h.newest p' hp' hn
  · rw [List.mem_singleton.1 hp'] at hn ⊢
    exact hnewest hn

/-- What is not an event of the provider is not shown in the row. -/
theorem BillingInv.other {e : BillingEvent} (h : BillingInv events s) (he : e.payload = none) :
    BillingInv events { s with stream := s.stream ++ [e] } := by
  have hkeep : storedEvents (s.stream ++ [e]) = storedEvents s.stream := by
    rw [storedEvents, List.filterMap_append, List.filterMap_cons_none he]
    exact List.append_nil _
  refine ⟨?_, ?_, fun hnone => ?_, fun row hrow => ?_, h.unreported, fun p' hp' hn => ?_⟩
  · rw [hkeep]; exact h.mem
  · rw [hkeep]; exact h.increasing
  · rw [hkeep]; exact h.absent hnone
  · rw [hkeep]; exact h.row row hrow
  · rw [hkeep]; exact h.newest p' hp' hn

/-- An event that the filters pass is newer than all that are stored. -/
theorem BillingInv.newer {consentId : Option String} (h : BillingInv events s) (hids : ProviderStateEvents events)
    (hmem : p ∈ events) (hok : s.InOrder priceToTier events now p)
    (hadmitted : admitProviderEvent priceToTier s.stream s.row p now = .admitted consentId)
    (hstale : isStaleSubscriptionEvent s.row p now = false) (hseen : hasSeenProviderEvent s.stream p = false)
    (hlate : isLateStateEvent s.stream p = false) : ∀ p' ∈ storedEvents s.stream, p'.eventAt < p.eventAt := by
  have hnew : p ∉ storedEvents s.stream := fun hin => by
    rw [(seen_iff hids h.mem hmem).2 hin] at hseen
    cases hseen
  cases hrow : s.row with
  | none =>
    intro p' hp'
    rw [h.absent hrow] at hp'
    cases hp'
  | some row =>
    by_cases hof : row.IsOf p
    · obtain ⟨older, last, hstored, hcolumns⟩ := h.row row hrow
      have hlast : last ∈ storedEvents s.stream := by
        rw [hstored]
        exact List.mem_append.2 (.inr (List.mem_singleton.2 rfl))
      have hname : last.providerName = p.providerName := by
        have hname := hof.1
        rw [hcolumns] at hname
        exact hname
      -- The last event is of the provider, so that the event is not older than it.
      have hlt : last.eventAt < p.eventAt := by
        have hnot : ¬p.eventAt < last.eventAt := fun hlater => by
          rw [(late_iff hids h.mem hmem hnew).2 ⟨last, hlast, hname, hlater⟩] at hlate
          cases hlate
        have hne : last.eventAt ≠ p.eventAt := fun heq =>
          hnew (hids.times last (h.mem last hlast) p hmem heq ▸ hlast)
        omega
      intro p' hp'
      rw [hstored] at hp'
      rcases List.mem_append.1 hp' with hp' | hp'
      · have hpairs := h.increasing
        rw [hstored] at hpairs
        exact Int.lt_trans ((List.pairwise_append.1 hpairs).2.2 p' hp' last (List.mem_singleton.2 rfl)) hlt
      · rw [List.mem_singleton.1 hp']
        exact hlt
    · rw [hrow] at hadmitted
      exact (hok.takesOver row hrow hof (bound_of_admitted hadmitted hof) hstale hseen hlate).2

/-- An event that the filters pass is stored and shown. -/
theorem BillingInv.store {consentId : Option String} (h : BillingInv events s) (hids : ProviderStateEvents events)
    (hmem : p ∈ events) (hok : s.InOrder priceToTier events now p)
    (hadmitted : admitProviderEvent priceToTier s.stream s.row p now = .admitted consentId)
    (hstale : isStaleSubscriptionEvent s.row p now = false) (hseen : hasSeenProviderEvent s.stream p = false)
    (hlate : isLateStateEvent s.stream p = false) :
    BillingInv events
      { s with stream := s.stream ++ [.provider p consentId], row := some (p.applyTo createdAt s.row) } := by
  have hstored : storedEvents (s.stream ++ [.provider p consentId]) = storedEvents s.stream ++ [p] := by
    rw [storedEvents, List.filterMap_append]
    rfl
  have hnewer := h.newer hids hmem hok hadmitted hstale hseen hlate
  have hcolumns : (p.applyTo createdAt s.row).columns = p.columns ∨ ∃ row, s.row = some row ∧
      (p.applyTo createdAt s.row).columns = { p.columns with cancelAt := p.cancelAt.getD row.columns.cancelAt } := by
    cases hrow : s.row with
    | none => exact .inl rfl
    | some row =>
      refine .inr ⟨row, rfl, columns_set (hids.state p hmem) fun hcanceled => ?_⟩
      have hof : row.IsOf p := by
        by_contra hof
        rw [hrow] at hadmitted
        exact (hok.takesOver row hrow hof (bound_of_admitted hadmitted hof) hstale hseen hlate).1 hcanceled
      exact ⟨hof, hok.customer row hrow hof hcanceled⟩
  refine ⟨fun p' hp' => ?_, ?_, fun hnone => (nomatch hnone), fun row hrow => ?_, fun hnone row hrow => ?_,
    fun p' hp' hn => ?_⟩
  · rw [hstored] at hp'
    rcases List.mem_append.1 hp' with hp' | hp'
    · exact h.mem p' hp'
    · rwa [List.mem_singleton.1 hp']
  · rw [hstored]
    refine List.pairwise_append.2 ⟨h.increasing, List.pairwise_singleton .., fun p' hp' q hq => ?_⟩
    rw [List.mem_singleton.1 hq]
    exact hnewer p' hp'
  · cases hrow
    refine ⟨storedEvents s.stream, p, hstored, ?_⟩
    rcases hcolumns with hcolumns | ⟨row, -, hcolumns⟩
    · rw [hcolumns]
      cases hcancelAt : p.cancelAt with
      | _ => rw [ProcessEventPayload.columns, hcancelAt]; rfl
    · rw [hcolumns]
      cases p.cancelAt with
      | _ => rfl
  · cases hrow
    rcases hcolumns with hcolumns | ⟨row, hrow, hcolumns⟩
    · rw [hcolumns, ProcessEventPayload.columns, hnone p hmem]
      rfl
    · rw [hcolumns, hnone p hmem]
      exact h.unreported hnone row hrow
  · rw [hstored]
    exact List.mem_append.2 (.inl (h.newest p' hp' hn))

/-- The newest event is not refused. -/
theorem admitted_of_newest (hdelivers : s.Delivers priceToTier events now p)
    (hok : s.InOrder priceToTier events now p) (hnewest : Newest events p) {reason : IgnoredEventReason}
    (hrefused : admitProviderEvent priceToTier s.stream s.row p now = .refused reason false) : False := by
  unfold admitProviderEvent at hrefused
  cases hbound : boundEntry priceToTier s.stream p with
  | some entry =>
    simp only [hbound] at hrefused
    cases hrefused
  | none =>
    simp only [hbound] at hrefused
    by_cases hcreated : p.type = .created
    · have hsome := hdelivers.ledger hcreated
      rw [hbound] at hsome
      cases hsome
    · rw [if_neg hcreated] at hrefused
      cases hrow : s.row with
      | none =>
        simp only [hrow] at hrefused
        cases hrefused.symm.trans (by rw [hdelivers.window])
      | some row =>
        simp only [hrow] at hrefused
        by_cases hof : row.IsOf p
        · rw [if_pos hof] at hrefused
          cases hrefused
        · have hsome := (hok.newest hnewest row hrow hof).1
          rw [hbound] at hsome
          cases hsome

theorem BillingInv.deliver (h : BillingInv events s) (hids : ProviderStateEvents events)
    (hdelivers : s.Delivers priceToTier events now p) (hok : s.InOrder priceToTier events now p) :
    BillingInv events (settle p (s.processEvent priceToTier now createdAt p)) := by
  have hmem := hdelivers.mem
  cases hadmission : admitProviderEvent priceToTier s.stream s.row p now with
  | refused reason retry =>
    simp only [processEvent, hadmission]
    cases retry with
    | true => exact h
    | false => exact h.answer fun hn => (admitted_of_newest hdelivers hok hn hadmission).elim
  | admitted consentId =>
    simp only [processEvent, hadmission]
    cases hstale : isStaleSubscriptionEvent s.row p now with
    | true =>
      rw [if_pos rfl]
      refine h.answer fun hn => ?_
      -- The newest event is not stale: the row is of its subscription, or gives way to it.
      cases hrow : s.row with
      | none => rw [hrow] at hstale; cases hstale
      | some row =>
        by_cases hof : row.IsOf p
        · rw [hrow, isStaleSubscriptionEvent, if_pos (.inl hof)] at hstale
          cases hstale
        · cases hstale.symm.trans (hok.newest hn row hrow hof).2
    | false =>
      rw [if_neg Bool.false_ne_true, appendSubscriptionEvent,
        clampProviderEventAt_eq (hids.timed p hmem) hok.skew]
      cases hseen : hasSeenProviderEvent s.stream p with
      | true =>
        rw [if_pos rfl]
        exact h.answer fun _ => (seen_iff hids h.mem hmem).1 hseen
      | false =>
        rw [if_neg Bool.false_ne_true]
        cases hlate : isLateStateEvent s.stream p with
        | true =>
          rw [if_pos rfl]
          refine h.answer fun hn => ?_
          by_contra hnew
          obtain ⟨p', hp', -, hlater⟩ := (late_iff hids h.mem hmem hnew).1 hlate
          have hle := hn.2 p' (h.mem p' hp')
          omega
        | false =>
          rw [if_neg Bool.false_ne_true]
          refine (h.store hids hmem hok hadmission hstale hseen hlate).answer fun _ => ?_
          exact mem_storedEvents.2 ⟨_, List.mem_append.2 (.inr (List.mem_singleton.2 rfl)), rfl⟩

theorem BillingInv.step {a : BillingAct} (h : BillingInv events s) (hids : ProviderStateEvents events)
    (hok : s.Ordered priceToTier events a) (hs : s.step priceToTier a = some s') : BillingInv events s' := by
  cases a with
  | openCheckout entry => cases hs; exact h.other rfl
  | recordConsent consent => cases hs; exact h.other rfl
  | deliver now createdAt p => cases hs; exact h.deliver hids hok.1 hok.2

theorem billingInv_initial : BillingInv events initial :=
  ⟨fun _ hp => (nomatch hp), .nil, fun _ => rfl, fun _ hrow => (nomatch hrow), fun _ _ hrow => (nomatch hrow),
    fun _ hp => (nomatch hp)⟩

theorem BillingInv.storedOnce (h : BillingInv events s) (hids : ProviderStateEvents events) : StoredOnce s := by
  refine ⟨?_, h.increasing⟩
  have hnodup : (storedEvents s.stream).Nodup :=
    h.increasing.imp fun hlt heq => by subst heq; exact Int.lt_irrefl _ hlt
  refine (List.nodup_map_iff_inj_on hnodup).2 fun p hp p' hp' heq => ?_
  obtain ⟨hname, hid⟩ := Prod.mk.inj heq
  exact hids.ids p (h.mem p hp) p' (h.mem p' hp') hname hid

/-- The row shows the newest event, once it has been answered. -/
theorem BillingInv.row_of_newest (h : BillingInv events s) (hreports : ReportsCancelAt events) (hn : Newest events p)
    (hanswered : p ∈ s.answered) : s.row.map (·.columns) = some p.columns := by
  have hin := h.newest p hanswered hn
  cases hrow : s.row with
  | none =>
    rw [h.absent hrow] at hin
    cases hin
  | some row =>
    obtain ⟨older, last, hstored, hcolumns⟩ := h.row row hrow
    -- The last stored event is the newest.
    have hlast : p = last := by
      have hpairs := h.increasing
      rw [hstored] at hpairs hin
      rcases List.mem_append.1 hin with hin | hin
      · have hlt := (List.pairwise_append.1 hpairs).2.2 p hin last (List.mem_singleton.2 rfl)
        have hle := hn.2 last (h.mem last (hstored ▸ List.mem_append.2 (.inr (List.mem_singleton.2 rfl))))
        omega
      · exact List.mem_singleton.1 hin
    subst hlast
    rw [Option.map_some, hcolumns]
    rcases hreports with hsome | hnone
    · obtain ⟨cancelAt, hcancelAt⟩ := Option.isSome_iff_exists.1 (hsome p hn)
      rw [ProcessEventPayload.columns, hcancelAt]
      rfl
    · rw [ProcessEventPayload.columns, hnone p hn.1, h.unreported hnone row hrow]

/-- Two orders of the same events, in which no newest event is refused and no older one takes the row of another
subscription over, leave the same subscription. -/
theorem delivery_order_of_runs (hids : ProviderStateEvents events) (hreports : ReportsCancelAt events)
    (hr : Run (BillingStore.step priceToTier) (Ordered priceToTier events) initial s)
    (hr' : Run (BillingStore.step priceToTier) (Ordered priceToTier events) initial s')
    (hall : ∀ p ∈ events, p ∈ s.answered) (hall' : ∀ p ∈ events, p ∈ s'.answered) :
    s.row.map (·.columns) = s'.row.map (·.columns) ∧ StoredOnce s ∧ StoredOnce s' := by
  have hinv : ∀ {t}, Run (BillingStore.step priceToTier) (Ordered priceToTier events) initial t → BillingInv events t :=
    fun hrun => hrun.invariant (I := BillingInv events) billingInv_initial fun _ _ _ h hok hs => h.step hids hok hs
  have h := hinv hr
  have h' := hinv hr'
  refine ⟨?_, h.storedOnce hids, h'.storedOnce hids⟩
  by_cases hne : events = []
  · have habsent : ∀ {t}, BillingInv events t → t.row = none := by
      intro t ht
      cases hrow : t.row with
      | none => rfl
      | some row =>
        obtain ⟨older, last, hstored, -⟩ := ht.row row hrow
        have hmem := ht.mem last (hstored ▸ List.mem_append.2 (.inr (List.mem_singleton.2 rfl)))
        rw [hne] at hmem
        cases hmem
    rw [habsent h, habsent h']
  · obtain ⟨p, hn⟩ := exists_newest hne
    rw [h.row_of_newest hreports hn (hall p hn.1), h'.row_of_newest hreports hn (hall' p hn.1)]

/-! ## Orders of a few events -/

def deliversB (priceToTier : PriceToTier) (events : List ProcessEventPayload) (s : BillingStore) (now : ℤ)
    (p : ProcessEventPayload) : Bool :=
  decide (p ∈ events) && (p.type ≠ .created || (boundEntry priceToTier s.stream p).isSome) &&
    isWithinMissingSubscriptionRetryWindow p now

instance {events : List ProcessEventPayload} {p : ProcessEventPayload} : Decidable (Newest events p) :=
  inferInstanceAs (Decidable (_ ∧ _))

/-- The condition where a row is taken over by no older event, evaluated. -/
def inOrderB (priceToTier : PriceToTier) (events : List ProcessEventPayload) (s : BillingStore) (now : ℤ)
    (p : ProcessEventPayload) : Bool :=
  p.eventAt ≤ now + PROVIDER_EVENT_CLOCK_SKEW_SECONDS * 1000 && s.row.all fun row =>
    if row.IsOf p then p.type ≠ .canceled || row.columns.providerCustomerId = p.providerCustomerId
    else if (boundEntry priceToTier s.stream p).isSome && !isStaleSubscriptionEvent s.row p now then
      p.type ≠ .canceled && (storedEvents s.stream).all fun p' => p'.eventAt < p.eventAt
    else decide ¬Newest events p

def orderedB (priceToTier : PriceToTier) (events : List ProcessEventPayload) (s : BillingStore) : BillingAct → Bool
  | .deliver now _ p => deliversB priceToTier events s now p && inOrderB priceToTier events s now p
  | .openCheckout _ | .recordConsent _ => true

theorem delivers_of_check (h : deliversB priceToTier events s now p = true) : s.Delivers priceToTier events now p := by
  obtain ⟨h, hwindow⟩ := Bool.and_eq_true_iff.1 h
  obtain ⟨hmem, hledger⟩ := Bool.and_eq_true_iff.1 h
  refine ⟨of_decide_eq_true hmem, fun hcreated => ?_, hwindow⟩
  rcases Bool.or_eq_true_iff.1 hledger with hne | hsome
  · exact absurd hcreated (of_decide_eq_true hne)
  · exact hsome

theorem inOrder_of_check (h : inOrderB priceToTier events s now p = true) : s.InOrder priceToTier events now p := by
  obtain ⟨hskew, hrows⟩ := Bool.and_eq_true_iff.1 h
  refine ⟨of_decide_eq_true hskew, fun hn row hrow hof => ?_, fun row hrow hof hbound hstale _ _ => ?_,
    fun row hrow hof hcanceled => ?_⟩
  · rw [hrow, Option.all_some, if_neg hof, ← hrow] at hrows
    split at hrows
    · next hboth =>
      obtain ⟨hbound, hstale⟩ := Bool.and_eq_true_iff.1 hboth
      rw [Bool.not_eq_true'] at hstale
      exact ⟨hbound, hstale⟩
    · exact absurd hn (of_decide_eq_true hrows)
  · rw [hrow, Option.all_some, if_neg hof, ← hrow, if_pos (by rw [hbound, hstale]; rfl)] at hrows
    obtain ⟨hne, hall⟩ := Bool.and_eq_true_iff.1 hrows
    exact ⟨of_decide_eq_true hne, fun p' hp' => of_decide_eq_true (List.all_eq_true.1 hall p' hp')⟩
  · rw [hrow, Option.all_some, if_pos hof] at hrows
    rcases Bool.or_eq_true_iff.1 hrows with hne | heq
    · exact absurd hcanceled (of_decide_eq_true hne)
    · exact of_decide_eq_true heq

theorem ordered_of_check {a : BillingAct} (h : orderedB priceToTier events s a = true) :
    s.Ordered priceToTier events a := by
  cases a with
  | deliver now createdAt p =>
    obtain ⟨hdelivers, hinOrder⟩ := Bool.and_eq_true_iff.1 h
    exact ⟨delivers_of_check hdelivers, inOrder_of_check hinOrder⟩
  | _ => trivial

/-- One price of one provider. -/
def onePrice : PriceToTier := fun _ priceId => if priceId = "price_pro" then some "pro" else none

def stripeEvent (id : String) (type : SubscriptionEventType) (sub : String) (status : SubscriptionStatus) (at' : ℤ)
    (checkout : Option String) : ProcessEventPayload :=
  ⟨id, "stripe", type, "cus_1", sub, status, "pro", "2027-01-01", none, some at', checkout⟩

def createdA : ProcessEventPayload := stripeEvent "evt_1" .created "sub_a" .active 1000 (some "cs_a")

def updatedA : ProcessEventPayload := stripeEvent "evt_2" .updated "sub_a" .pastDue 2000 none

def canceledA : ProcessEventPayload := stripeEvent "evt_3" .canceled "sub_a" .canceled 3000 none

def createdB : ProcessEventPayload := stripeEvent "evt_4" .created "sub_b" .active 4000 (some "cs_b")

def updatedB : ProcessEventPayload := stripeEvent "evt_5" .updated "sub_b" .pastDue 5000 none

def checkouts : List BillingAct :=
  [.openCheckout ⟨"stripe", "cs_a", "price_pro", .subscription, none⟩,
    .openCheckout ⟨"stripe", "cs_b", "price_pro", .subscription, none⟩]

theorem canceled_events : ProviderStateEvents [createdA, updatedA, canceledA] ∧
    ReportsCancelAt [createdA, updatedA, canceledA] :=
  ⟨⟨by decide, by decide, by decide, by decide⟩, .inr (by decide)⟩

/-- A subscription that is canceled, in the order of its events and against it. -/
theorem delivery_order_of_runs_canceled : ∃ s s' : BillingStore,
    (s.row.map (·.columns.status) = some .canceled ∧ s.row.map (·.columns) = s'.row.map (·.columns)) ∧
      StoredOnce s ∧ StoredOnce s' := by
  obtain ⟨s, hr, hs⟩ := exists_run_of_execOk (BillingStore.step onePrice)
    (orderedB onePrice [createdA, updatedA, canceledA]) initial
    (checkouts ++ [.deliver 3500 3500 createdA, .deliver 3501 3501 updatedA, .deliver 3502 3502 canceledA])
    (fun s => decide ((∀ p ∈ [createdA, updatedA, canceledA], p ∈ s.answered) ∧
      s.row.map (·.columns.status) = some .canceled)) (fun s a h => ordered_of_check h) (by decide +kernel)
    (by decide +kernel)
  obtain ⟨s', hr', hs'⟩ := exists_run_of_execOk (BillingStore.step onePrice)
    (orderedB onePrice [createdA, updatedA, canceledA]) initial
    (checkouts ++ [.deliver 3500 3500 canceledA, .deliver 3501 3501 createdA, .deliver 3502 3502 canceledA,
      .deliver 3503 3503 updatedA, .deliver 3504 3504 createdA])
    (fun s => decide (∀ p ∈ [createdA, updatedA, canceledA], p ∈ s.answered)) (fun s a h => ordered_of_check h)
    (by decide +kernel) (by decide +kernel)
  obtain ⟨hall, hstatus⟩ := of_decide_eq_true hs
  obtain ⟨hsame, honce⟩ := delivery_order_of_runs canceled_events.1 canceled_events.2 hr hr' hall (of_decide_eq_true hs')
  exact ⟨s, s', ⟨hstatus, hsame⟩, honce⟩

def deliveredB (priceToTier : PriceToTier) (events : List ProcessEventPayload) (s : BillingStore) : BillingAct → Bool
  | .deliver now _ p => deliversB priceToTier events s now p
  | .openCheckout _ | .recordConsent _ => true

theorem delivered_of_check {a : BillingAct} (h : deliveredB priceToTier events s a = true) :
    s.Delivered priceToTier events a := by
  cases a with
  | deliver now createdAt p => exact delivers_of_check h
  | _ => trivial

/-- An update that beats the `created` of its subscription, while the row is of another, is refused for good. -/
theorem delivery_order_matters : ¬∀ (events : List ProcessEventPayload) (s s' : BillingStore),
    ProviderStateEvents events → Run (BillingStore.step onePrice) (Delivered onePrice events) initial s →
    Run (BillingStore.step onePrice) (Delivered onePrice events) initial s' → (∀ p ∈ events, p ∈ s.answered) →
    (∀ p ∈ events, p ∈ s'.answered) → s.row.map (·.columns) = s'.row.map (·.columns) := by
  intro h
  obtain ⟨s, hr, hs⟩ := exists_run_of_execOk (BillingStore.step onePrice)
    (deliveredB onePrice [createdA, createdB, updatedB]) initial
    (checkouts ++ [.deliver 5500 5500 createdA, .deliver 5501 5501 createdB, .deliver 5502 5502 updatedB])
    (fun s => decide ((∀ p ∈ [createdA, createdB, updatedB], p ∈ s.answered) ∧
      s.row.map (·.columns.status) = some .pastDue)) (fun s a h => delivered_of_check h) (by decide +kernel)
    (by decide +kernel)
  obtain ⟨s', hr', hs'⟩ := exists_run_of_execOk (BillingStore.step onePrice)
    (deliveredB onePrice [createdA, createdB, updatedB]) initial
    (checkouts ++ [.deliver 5500 5500 createdA, .deliver 5501 5501 updatedB, .deliver 5502 5502 createdB])
    (fun s => decide ((∀ p ∈ [createdA, createdB, updatedB], p ∈ s.answered) ∧
      s.row.map (·.columns.status) = some .active)) (fun s a h => delivered_of_check h) (by decide +kernel)
    (by decide +kernel)
  obtain ⟨hall, hstatus⟩ := of_decide_eq_true hs
  obtain ⟨hall', hstatus'⟩ := of_decide_eq_true hs'
  have hsame := congrArg (Option.map (·.status))
    (h _ s s' ⟨by decide, by decide, by decide, by decide⟩ hr hr' hall hall')
  rw [Option.map_map, Option.map_map] at hsame
  cases (hstatus.symm.trans hsame).trans hstatus'

end BillingStore

end Kumiko
