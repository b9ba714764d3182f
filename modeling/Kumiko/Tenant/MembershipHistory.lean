import Kumiko.Library.KeyedRows
import Kumiko.Library.UuidText
import Mathlib.Data.List.Infix

/-!
# Membership history

`tenant/membership-stream-history.ts` archives the membership streams that a rebuild must not see. The history
of a user and a tenant collides once a stream is created while another one has its row. Where every created
event names its pair and no update changes it, the rebuild after the repair has at most one row for a pair at
any time, and a pair that does not collide loses no stream (`membership_history_repaired`).
-/

namespace Kumiko

open KeyedRows

/-! ## The log -/

/-- Reference: `MEMBERSHIP_AGGREGATE`. -/
def membershipAggregate : String := "tenant-membership"

/-- Reference: `USER_AGGREGATE`. -/
def userAggregate : String := "user"

/-- Reference: `entityEventName(MEMBERSHIP_AGGREGATE, verb)`. -/
def membershipEvent (verb : String) : String := membershipAggregate ++ "." ++ verb

/-- Reference: `ROW_REMOVING_TYPES`. -/
def rowRemovingTypes : List String := [membershipEvent "deleted", membershipEvent "forgotten"]

/-- Reference: `LIFECYCLE_TYPES`. -/
def lifecycleTypes : List String := membershipEvent "created" :: membershipEvent "updated" :: rowRemovingTypes

/-- A row of the event table, with what the payload says of the pair: in a created event the pair itself, in an updated
one what of it changes. -/
structure MembershipLogEvent where
  id : ℕ
  tenantId : String
  aggregateId : String
  aggregateType : String
  type : String
  userId : Option String
  memberTenantId : Option String
  deriving DecidableEq

/-- A row of `kumiko_archived_streams`. -/
structure ArchivedStream where
  tenantId : String
  aggregateId : String
  aggregateType : String

/-- The primary key. -/
def ArchivedStream.key (a : ArchivedStream) : String × String := (a.tenantId, a.aggregateId)

/-- The event sits in an archived stream. -/
def inArchivedStream (archived : List ArchivedStream) (e : MembershipLogEvent) : Bool :=
  archived.any (·.key = (e.tenantId, e.aggregateId))

/-- A user counts as archived while none of its events sits outside an archived stream. -/
def isArchivedUser (log : List MembershipLogEvent) (archived : List ArchivedStream) (userId : String) : Bool :=
  archived.any fun u => u.aggregateType = userAggregate && u.aggregateId = userId &&
    log.all fun ue => !(ue.aggregateId = u.aggregateId && ue.aggregateType = userAggregate) ||
      inArchivedStream archived ue

/-- The first created event of a membership stream, archived or not. -/
def firstCreated (log : List MembershipLogEvent) (aggregateId : String) : Option MembershipLogEvent :=
  log.find? fun f => f.aggregateId = aggregateId && f.aggregateType = membershipAggregate &&
    f.type = membershipEvent "created"

/-- The pair that the first created event names. -/
def pairOfStream (log : List MembershipLogEvent) (aggregateId : String) : Option (String × String) := do
  let created ← firstCreated log aggregateId
  let userId ← created.userId
  let memberTenantId ← created.memberTenantId
  pure (userId, memberTenantId)

/-- Reference: `MembershipEventRow`, with the pair that `pairKeyOf` builds its key from. -/
structure MembershipEventRow where
  eventId : ℕ
  aggregateId : String
  streamTenantId : String
  type : String
  pair : String × String
  userArchived : Bool

/-- An event of a membership stream that is not archived. -/
def replayed (archived : List ArchivedStream) (e : MembershipLogEvent) : Bool :=
  e.aggregateType = membershipAggregate && !inArchivedStream archived e

/-- What the read returns for an event. -/
def membershipEventRow (log : List MembershipLogEvent) (archived : List ArchivedStream) (e : MembershipLogEvent) :
    Option MembershipEventRow :=
  if e.type ∈ lifecycleTypes then
    (pairOfStream log e.aggregateId).map fun pair =>
      ⟨e.id, e.aggregateId, e.tenantId, e.type, pair, isArchivedUser log archived pair.1⟩
  else none

/-- Reference: `readMembershipEvents`; the log is in the order of the ids. -/
def readMembershipEvents (log : List MembershipLogEvent) (archived : List ArchivedStream) : List MembershipEventRow :=
  (log.filter (replayed archived)).filterMap (membershipEventRow log archived)

/-! ## Histories -/

/-- Reference: `MembershipStream`. -/
structure MembershipStream where
  aggregateId : String
  streamTenantIds : List String
  userArchived : Bool
  lastEventId : ℕ
  alive : Bool

/-- Reference: `PairHistory`, with its key. -/
structure PairHistory where
  pair : String × String
  streams : List MembershipStream
  collides : Bool

/-- Whether the row is there after an event of its stream. -/
def aliveThen (type : String) (alive : Bool) : Bool :=
  if type = membershipEvent "created" then true else if type ∈ rowRemovingTypes then false else alive

/-- One event of a pair. Reference: the loop of `groupByPair`. -/
def PairHistory.step (history : PairHistory) (row : MembershipEventRow) : PairHistory :=
  let stream := (lookup MembershipStream.aggregateId row.aggregateId history.streams).getD
    ⟨row.aggregateId, [], row.userArchived, 0, false⟩
  let otherAlive := history.streams.any fun other => other.aggregateId ≠ row.aggregateId && other.alive
  { history with
    streams := upsert MembershipStream.aggregateId
      { stream with
        streamTenantIds :=
          if row.streamTenantId ∈ stream.streamTenantIds then stream.streamTenantIds
          else stream.streamTenantIds ++ [row.streamTenantId]
        lastEventId := row.eventId
        alive := aliveThen row.type stream.alive } history.streams
    collides := history.collides || (row.type = membershipEvent "created" && otherAlive) }

/-- Reference: `groupByPair`. -/
def groupByPair (rows : List MembershipEventRow) : List PairHistory :=
  rows.foldl (fun pairs row =>
    let pair := (lookup PairHistory.pair row.pair pairs).getD ⟨row.pair, [], false⟩
    upsert PairHistory.pair (pair.step row) pairs) []

/-- Reference: `streamToKeep`. -/
def streamToKeep (streams : List MembershipStream) : Option MembershipStream :=
  let newestFirst := streams.mergeSort fun a b => b.lastEventId ≤ a.lastEventId
  (newestFirst.find? (·.alive)).or newestFirst.head?

/-! ## The repair -/

/-- Why a stream is archived. -/
inductive ArchiveReason where
  | userArchived
  | duplicate (keptAggregateId : String)

/-- Reference: `ArchivedMembershipStream`. -/
structure ArchivedMembershipStream where
  aggregateId : String
  reason : ArchiveReason

/-- The streams of a pair that are archived. Reference: `archiveUnreplayableMembershipStreams`. -/
def PairHistory.unreplayable (history : PairHistory) : List (MembershipStream × ArchiveReason) :=
  if history.streams.any (·.userArchived) then history.streams.map (·, .userArchived)
  else if !history.collides then []
  else
    match streamToKeep history.streams with
    | none => []
    | some kept =>
      (history.streams.filter (·.aggregateId ≠ kept.aggregateId)).map (·, .duplicate kept.aggregateId)

/-- Reference: `archiveMembershipStream`; the text of a `uuid` column has the shape that `parseTenantId` asks for. -/
def archiveMembershipStream (archived : List ArchivedStream) (stream : MembershipStream) : List ArchivedStream :=
  stream.streamTenantIds.foldl (fun archived tenantId =>
    upsert ArchivedStream.key ⟨tenantId, stream.aggregateId, membershipAggregate⟩ archived) archived

/-- The archived streams afterwards, and the result. Reference: `archiveUnreplayableMembershipStreams`. -/
def archiveUnreplayableMembershipStreams (log : List MembershipLogEvent) (archived : List ArchivedStream) :
    List ArchivedStream × List ArchivedMembershipStream :=
  let streams := (groupByPair (readMembershipEvents log archived)).flatMap (·.unreplayable)
  ((streams.map (·.1)).foldl archiveMembershipStream archived, streams.map fun s => ⟨s.1.aggregateId, s.2⟩)

/-! ## The rebuild -/

/-- The rows of the projection: the user, as text, and the tenant, as a `uuid`. -/
abbrev MembershipRows := String → Option (String × List ℕ)

/-- The row of a created event; an insert that fails leaves none. -/
def createdMembershipRow (e : MembershipLogEvent) : Option (String × List ℕ) := do
  let userId ← e.userId
  let tenantId ← uuidIn (e.memberTenantId.getD e.tenantId)
  pure (userId, tenantId)

/-- Without the indexes of the table. Reference: `applyEntityEvent`. -/
def applyMembershipEvent (rows : MembershipRows) (e : MembershipLogEvent) : MembershipRows :=
  if e.type = membershipEvent "created" then Function.update rows e.aggregateId (createdMembershipRow e)
  else if e.type = membershipEvent "updated" then
    Function.update rows e.aggregateId ((rows e.aggregateId).map fun row =>
      (e.userId.getD row.1, (e.memberTenantId.bind uuidIn).getD row.2))
  else if e.type ∈ rowRemovingTypes then Function.update rows e.aggregateId none
  else rows

/-- The rows after the events. -/
def replay (events : List MembershipLogEvent) : MembershipRows := events.foldl applyMembershipEvent fun _ => none

/-- Every created event of a membership stream names a pair, the streams' own and each tenant in one spelling, and no
updated event changes it. -/
structure NamesPairs (log : List MembershipLogEvent) : Prop where
  named : ∀ e ∈ log, e.aggregateType = membershipAggregate → e.type = membershipEvent "created" →
    ∃ userId memberTenantId tenantId, e.userId = some userId ∧ e.memberTenantId = some memberTenantId ∧
      uuidIn memberTenantId = some tenantId
  onePair : ∀ e ∈ log, ∀ e' ∈ log, e.aggregateType = membershipAggregate → e'.aggregateType = membershipAggregate →
    e.type = membershipEvent "created" → e'.type = membershipEvent "created" → e.aggregateId = e'.aggregateId →
    e.userId = e'.userId ∧ e.memberTenantId = e'.memberTenantId
  oneSpelling : ∀ e ∈ log, ∀ e' ∈ log, e.aggregateType = membershipAggregate → e'.aggregateType = membershipAggregate →
    e.type = membershipEvent "created" → e'.type = membershipEvent "created" →
    e.memberTenantId.bind uuidIn = e'.memberTenantId.bind uuidIn → e.memberTenantId = e'.memberTenantId
  updates : ∀ e ∈ log, e.aggregateType = membershipAggregate → e.type = membershipEvent "updated" →
    e.userId = none ∧ e.memberTenantId = none

/-! ## Rows over time -/

/-- The stream and the type of an event. -/
def MembershipLogEvent.act (e : MembershipLogEvent) : String × String := (e.aggregateId, e.type)

/-- Whether the row of a stream is there after the events. -/
def aliveAfter (acts : List (String × String)) (aggregateId : String) : Bool :=
  acts.foldl (fun alive act => if act.1 = aggregateId then aliveThen act.2 alive else alive) false

theorem aliveAfter_concat (acts : List (String × String)) (act : String × String) (aggregateId : String) :
    aliveAfter (acts ++ [act]) aggregateId =
      if act.1 = aggregateId then aliveThen act.2 (aliveAfter acts aggregateId) else aliveAfter acts aggregateId := by
  simp [aliveAfter, List.foldl_append]

variable {aggregateId : String} {log : List MembershipLogEvent} {e : MembershipLogEvent}
  {events : List MembershipLogEvent} {history : PairHistory} {streams : List MembershipStream}
  {stream : MembershipStream}

theorem exists_created_of_aliveAfter {acts : List (String × String)}
    (h : aliveAfter acts aggregateId = true) : (aggregateId, membershipEvent "created") ∈ acts := by
  induction acts using List.reverseRecOn with
  | nil => cases h
  | append_singleton acts act ih =>
    rw [aliveAfter_concat] at h
    rw [List.mem_append, List.mem_singleton]
    split at h
    · next hact =>
      unfold aliveThen at h
      split at h
      · next hcreated => exact .inr (Prod.ext hact.symm hcreated.symm)
      · split at h
        · cases h
        · exact .inl (ih h)
    · exact .inl (ih h)

/-- The row that a stream has while it is alive. -/
def streamRow (log : List MembershipLogEvent) (aggregateId : String) : Option (String × List ℕ) :=
  (firstCreated log aggregateId).bind createdMembershipRow

theorem firstCreated_eq_some {c : MembershipLogEvent} (h : firstCreated log aggregateId = some c) :
    c ∈ log ∧ c.aggregateId = aggregateId ∧ c.aggregateType = membershipAggregate ∧
      c.type = membershipEvent "created" := by
  have hfound := List.find?_some h
  simp only [Bool.and_eq_true, decide_eq_true_eq, and_assoc] at hfound
  exact ⟨List.mem_of_find?_eq_some h, hfound⟩

theorem exists_firstCreated (he : e ∈ log)
    (hm : e.aggregateType = membershipAggregate) (hc : e.type = membershipEvent "created") :
    ∃ c, firstCreated log e.aggregateId = some c := by
  rw [← Option.isSome_iff_exists]
  exact List.find?_isSome.2 ⟨e, he, by simp [hm, hc]⟩

/-- Every created event of a stream makes the same row. -/
theorem NamesPairs.createdMembershipRow_eq (hlog : NamesPairs log)
    (he : e ∈ log) (hm : e.aggregateType = membershipAggregate)
    (hc : e.type = membershipEvent "created") : createdMembershipRow e = streamRow log e.aggregateId := by
  obtain ⟨c, hfirst⟩ := exists_firstCreated he hm hc
  obtain ⟨hcl, hca, hcm, hcc⟩ := firstCreated_eq_some hfirst
  obtain ⟨huser, htenant⟩ := hlog.onePair e he c hcl hm hcm hc hcc hca.symm
  obtain ⟨userId, memberTenantId, tenantId, huser', htenant', huuid⟩ := hlog.named e he hm hc
  rw [streamRow, hfirst, Option.bind_some]
  simp [createdMembershipRow, ← huser, ← htenant, huser', htenant', huuid]

/-- A replay of membership events has the rows of the streams that are alive. -/
theorem NamesPairs.replay_eq (hlog : NamesPairs log)
    (hsub : ∀ e ∈ events, e ∈ log ∧ e.aggregateType = membershipAggregate) (aggregateId : String) :
    replay events aggregateId =
      if aliveAfter (events.map (·.act)) aggregateId then streamRow log aggregateId else none := by
  induction events using List.reverseRecOn with
  | nil => rfl
  | append_singleton events e ih =>
    have ih := ih fun e' he' => hsub e' (List.mem_append_left _ he')
    obtain ⟨he, hm⟩ := hsub e (List.mem_append_right _ (List.mem_singleton_self e))
    rw [replay, List.foldl_append, List.foldl_cons, List.foldl_nil, ← replay, List.map_append, List.map_singleton,
      aliveAfter_concat]
    by_cases hagg : e.aggregateId = aggregateId
    · subst hagg
      simp only [MembershipLogEvent.act, if_true]
      unfold applyMembershipEvent aliveThen
      by_cases hc : e.type = membershipEvent "created"
      · rw [if_pos hc, if_pos hc, Function.update_self, hlog.createdMembershipRow_eq he hm hc, if_pos rfl]
      · rw [if_neg hc, if_neg hc]
        by_cases hu : e.type = membershipEvent "updated"
        · have hkept : e.type ∉ rowRemovingTypes := by rw [hu]; decide
          obtain ⟨huser, htenant⟩ := hlog.updates e he hm hu
          rw [if_pos hu, if_neg hkept, Function.update_self, huser, htenant]
          exact Option.map_id'.trans ih
        · rw [if_neg hu]
          by_cases hr : e.type ∈ rowRemovingTypes
          · rw [if_pos hr, if_pos hr, Function.update_self]
            rfl
          · rw [if_neg hr, if_neg hr]
            exact ih
    · have hact : e.act.1 ≠ aggregateId := hagg
      rw [if_neg hact, ← ih]
      unfold applyMembershipEvent
      split
      · exact Function.update_of_ne (Ne.symm hagg) _ _
      · split
        · exact Function.update_of_ne (Ne.symm hagg) _ _
        · split
          · exact Function.update_of_ne (Ne.symm hagg) _ _
          · rfl

/-! ## Histories over time -/

def MembershipEventRow.act (row : MembershipEventRow) : String × String := (row.aggregateId, row.type)

/-- The history of the events of one pair. -/
def PairHistory.run (pair : String × String) (rows : List MembershipEventRow) : PairHistory :=
  rows.foldl PairHistory.step ⟨pair, [], false⟩

theorem PairHistory.run_concat (pair : String × String) (rows : List MembershipEventRow) (row : MembershipEventRow) :
    run pair (rows ++ [row]) = (run pair rows).step row := by
  rw [run, List.foldl_append]
  rfl

theorem PairHistory.pair_run (pair : String × String) (rows : List MembershipEventRow) :
    (run pair rows).pair = pair := by
  induction rows using List.reverseRecOn with
  | nil => rfl
  | append_singleton rows row ih => rw [run_concat]; exact ih

theorem groupByPair_concat (rows : List MembershipEventRow) (row : MembershipEventRow) :
    groupByPair (rows ++ [row]) = upsert PairHistory.pair
      (((lookup PairHistory.pair row.pair (groupByPair rows)).getD ⟨row.pair, [], false⟩).step row)
      (groupByPair rows) := by
  rw [groupByPair, List.foldl_append]
  rfl

/-- The history of a pair is made of its own events. -/
theorem lookup_groupByPair (rows : List MembershipEventRow) (pair : String × String) :
    lookup PairHistory.pair pair (groupByPair rows) =
      if rows.filter (·.pair = pair) = [] then none else some (PairHistory.run pair (rows.filter (·.pair = pair))) := by
  induction rows using List.reverseRecOn generalizing pair with
  | nil => rfl
  | append_singleton rows row ih =>
    have hlast : (lookup PairHistory.pair row.pair (groupByPair rows)).getD ⟨row.pair, [], false⟩ =
        PairHistory.run row.pair (rows.filter (·.pair = row.pair)) := by
      rw [ih row.pair]
      split
      · next hnil => rw [hnil]; rfl
      · rfl
    rw [groupByPair_concat, hlast, List.filter_append]
    obtain ⟨next, hnext⟩ : ∃ next, next = (PairHistory.run row.pair (rows.filter (·.pair = row.pair))).step row :=
      ⟨_, rfl⟩
    have hkey : next.pair = row.pair := hnext ▸ PairHistory.pair_run _ _
    rw [← hnext]
    by_cases hpair : row.pair = pair
    · subst hpair
      have hfound : lookup PairHistory.pair next.pair (upsert PairHistory.pair next (groupByPair rows)) = some next :=
        lookup_upsert_self
      rw [List.filter_cons_of_pos (by simp), List.filter_nil, if_neg (by simp), PairHistory.run_concat, ← hnext]
      rwa [hkey] at hfound
    · rw [List.filter_cons_of_neg (by simpa using hpair), List.filter_nil, List.append_nil, ← ih pair]
      exact lookup_upsert_of_ne (ne_of_eq_of_ne hkey hpair)

theorem nodup_groupByPair (rows : List MembershipEventRow) : ((groupByPair rows).map PairHistory.pair).Nodup := by
  induction rows using List.reverseRecOn with
  | nil => exact List.nodup_nil
  | append_singleton rows row ih => rw [groupByPair_concat]; exact nodup_upsert ih

/-- What a history says of the events that it is made of: which streams there are and whether they are alive, and
whether two were alive at the same time. -/
structure HistoryOf (rows : List MembershipEventRow) (history : PairHistory) : Prop where
  nodup : (history.streams.map (·.aggregateId)).Nodup
  tracked : ∀ row ∈ rows, ∃ stream ∈ history.streams, stream.aggregateId = row.aggregateId ∧
    row.streamTenantId ∈ stream.streamTenantIds
  alive : ∀ stream ∈ history.streams, stream.alive = aliveAfter (rows.map (·.act)) stream.aggregateId
  origin : ∀ stream ∈ history.streams, ∃ row ∈ rows, row.aggregateId = stream.aggregateId ∧
    row.userArchived = stream.userArchived
  apart : history.collides = false → ∀ before, before <+: rows → ∀ a b,
    aliveAfter (before.map (·.act)) a = true → aliveAfter (before.map (·.act)) b = true → a = b
  overlap : history.collides = true → ∃ before, before <+: rows ∧ ∃ a b, a ≠ b ∧
    aliveAfter (before.map (·.act)) a = true ∧ aliveAfter (before.map (·.act)) b = true

theorem HistoryOf.nil (pair : String × String) : HistoryOf [] ⟨pair, [], false⟩ where
  nodup := List.nodup_nil
  tracked _ h := nomatch h
  alive _ h := nomatch h
  origin _ h := nomatch h
  apart _ before hbefore a _ ha _ := by
    rw [List.prefix_nil.1 hbefore] at ha
    cases ha
  overlap h := nomatch h

section Step

variable {rows : List MembershipEventRow} {history : PairHistory} (hof : HistoryOf rows history)
  (row : MembershipEventRow)
include hof

/-- The stream of the next event, before it. -/
theorem HistoryOf.current : ∃ stream : MembershipStream,
    (lookup MembershipStream.aggregateId row.aggregateId history.streams).getD
      ⟨row.aggregateId, [], row.userArchived, 0, false⟩ = stream ∧
    stream.aggregateId = row.aggregateId ∧ stream.alive = aliveAfter (rows.map (·.act)) row.aggregateId ∧
    (∃ r ∈ rows ++ [row], r.aggregateId = row.aggregateId ∧ r.userArchived = stream.userArchived) ∧
    ∀ r ∈ rows, r.aggregateId = row.aggregateId → r.streamTenantId ∈ stream.streamTenantIds := by
  cases hfound : lookup MembershipStream.aggregateId row.aggregateId history.streams with
  | none =>
    have hnew := lookup_eq_none.1 hfound
    have hrows (r : MembershipEventRow) (hr : r ∈ rows) : r.aggregateId ≠ row.aggregateId := by
      obtain ⟨stream, hstream, hagg, -⟩ := hof.tracked r hr
      exact hagg ▸ hnew stream hstream
    refine ⟨_, rfl, rfl, Eq.symm ?_, ⟨row, by simp, rfl, rfl⟩, fun r hr hagg => absurd hagg (hrows r hr)⟩
    refine Bool.eq_false_iff.2 fun halive => ?_
    obtain ⟨r, hr, hact⟩ := List.mem_map.1 (exists_created_of_aliveAfter halive)
    exact hrows r hr (congrArg Prod.fst hact)
  | some stream =>
    have hmem := KeyedRows.mem_of_lookup hfound
    have hagg := key_of_lookup hfound
    obtain ⟨r, hr, hragg, huser⟩ := hof.origin stream hmem
    refine ⟨stream, rfl, hagg, hagg ▸ hof.alive stream hmem,
      ⟨r, List.mem_append_left _ hr, hragg.trans hagg, huser⟩, fun r' hr' hagg' => ?_⟩
    obtain ⟨stream', hmem', hagg'', htenant⟩ := hof.tracked r' hr'
    have hsame := lookup_of_mem hof.nodup hmem'
    rw [hagg'', hagg', hfound] at hsame
    exact Option.some.inj hsame ▸ htenant

/-- Another stream of the pair is alive just when it is marked so. -/
theorem HistoryOf.otherAlive_iff :
    (history.streams.any fun other => other.aggregateId ≠ row.aggregateId && other.alive) = true ↔
      ∃ a, a ≠ row.aggregateId ∧ aliveAfter (rows.map (·.act)) a = true := by
  simp only [List.any_eq_true, Bool.and_eq_true, decide_eq_true_eq]
  constructor
  · rintro ⟨other, hmem, hne, halive⟩
    exact ⟨other.aggregateId, hne, hof.alive other hmem ▸ halive⟩
  · rintro ⟨a, hne, halive⟩
    obtain ⟨r, hr, hact⟩ := List.mem_map.1 (exists_created_of_aliveAfter halive)
    obtain ⟨other, hmem, hagg, -⟩ := hof.tracked r hr
    have ha : other.aggregateId = a := hagg.trans (congrArg Prod.fst hact)
    subst ha
    exact ⟨other, hmem, hne, (hof.alive other hmem).trans halive⟩

/-- Where no two streams are alive and none is created beside another one, no two are alive after the event. -/
theorem HistoryOf.apart_concat (hc : history.collides = false)
    (hother : (row.type = membershipEvent "created" && history.streams.any fun other =>
      other.aggregateId ≠ row.aggregateId && other.alive) = false) {a b : String}
    (ha : (if row.aggregateId = a then aliveThen row.type (aliveAfter (rows.map (·.act)) a)
      else aliveAfter (rows.map (·.act)) a) = true)
    (hb : (if row.aggregateId = b then aliveThen row.type (aliveAfter (rows.map (·.act)) b)
      else aliveAfter (rows.map (·.act)) b) = true) : a = b := by
  have hapart := hof.apart hc rows List.prefix_rfl
  -- A stream that the event leaves alive beside another one was alive before.
  have hbefore (c d : String) (hne : c ≠ d) (hd : row.aggregateId ≠ d → aliveAfter (rows.map (·.act)) d = true)
      (hlive : (if row.aggregateId = c then aliveThen row.type (aliveAfter (rows.map (·.act)) c)
        else aliveAfter (rows.map (·.act)) c) = true) : aliveAfter (rows.map (·.act)) c = true := by
    split at hlive
    · next hrow =>
      subst hrow
      unfold aliveThen at hlive
      split at hlive
      · next hcreated =>
        have hany := (hof.otherAlive_iff row).2 ⟨d, hne.symm, hd hne⟩
        rw [hany, Bool.and_true, decide_eq_false_iff_not] at hother
        exact absurd hcreated hother
      · split at hlive
        · cases hlive
        · exact hlive
    · exact hlive
  by_contra hne
  have ha' (h : row.aggregateId ≠ a) : aliveAfter (rows.map (·.act)) a = true := by rwa [if_neg h] at ha
  have hb' (h : row.aggregateId ≠ b) : aliveAfter (rows.map (·.act)) b = true := by rwa [if_neg h] at hb
  exact hne (hapart a b (hbefore a b hne hb' ha) (hbefore b a (Ne.symm hne) ha' hb))

/-- One more event keeps that the history is that of the events. -/
theorem HistoryOf.step : HistoryOf (rows ++ [row]) (history.step row) := by
  obtain ⟨stream, hstream, hagg, halive, horigin, htenants⟩ := hof.current row
  have hconcat (a : String) : aliveAfter ((rows ++ [row]).map (·.act)) a =
      if row.aggregateId = a then aliveThen row.type (aliveAfter (rows.map (·.act)) a)
      else aliveAfter (rows.map (·.act)) a := by
    rw [List.map_append, List.map_singleton, aliveAfter_concat]
    rfl
  unfold PairHistory.step
  simp only [hstream]
  refine ⟨nodup_upsert hof.nodup, fun r hr => ?_, fun st hst => ?_, fun st hst => ?_,
    fun hc before hbefore a b ha hb => ?_, fun hc => ?_⟩
  · by_cases hsame : r.aggregateId = row.aggregateId
    · refine ⟨_, mem_upsert.2 (.inl rfl), hagg.trans hsame.symm, ?_⟩
      rcases List.mem_append.1 hr with hr | hr
      · have hmem := htenants r hr hsame
        dsimp only
        split
        · exact hmem
        · exact List.mem_append_left _ hmem
      · obtain rfl := List.mem_singleton.1 hr
        dsimp only
        split
        · next hmem => exact hmem
        · exact List.mem_append_right _ (List.mem_singleton_self _)
    · have hr : r ∈ rows := (List.mem_append.1 hr).resolve_right fun hr => hsame (List.mem_singleton.1 hr ▸ rfl)
      obtain ⟨st, hst, hstagg, htenant⟩ := hof.tracked r hr
      exact ⟨st, mem_upsert.2 (.inr ⟨hst, by rw [hagg, hstagg]; exact hsame⟩), hstagg, htenant⟩
  · rcases mem_upsert.1 hst with rfl | ⟨hst, hne⟩
    · rw [hconcat, if_pos hagg.symm, hagg, ← halive]
    · rw [hconcat, if_neg (fun h => hne (h.symm.trans hagg.symm))]
      exact hof.alive st hst
  · rcases mem_upsert.1 hst with rfl | ⟨hst, -⟩
    · obtain ⟨r, hr, hragg, huser⟩ := horigin
      exact ⟨r, hr, hragg.trans hagg.symm, huser⟩
    · obtain ⟨r, hr, hragg, huser⟩ := hof.origin st hst
      exact ⟨r, List.mem_append_left _ hr, hragg, huser⟩
  · simp only [Bool.or_eq_false_iff] at hc
    rcases List.prefix_concat_iff.1 hbefore with rfl | hbefore
    · rw [hconcat] at ha hb
      exact hof.apart_concat row hc.1 hc.2 ha hb
    · exact hof.apart hc.1 before hbefore a b ha hb
  · simp only [Bool.or_eq_true, Bool.and_eq_true, decide_eq_true_eq] at hc
    rcases hc with hc | ⟨hcreated, hother⟩
    · obtain ⟨before, hbefore, hoverlap⟩ := hof.overlap hc
      exact ⟨before, hbefore.trans (List.prefix_append _ _), hoverlap⟩
    · -- The stream comes alive while another one is.
      obtain ⟨a, hne, ha⟩ := (hof.otherAlive_iff row).1 hother
      refine ⟨rows ++ [row], List.prefix_rfl, row.aggregateId, a, hne.symm, ?_, ?_⟩
      · rw [hconcat, if_pos rfl, aliveThen, if_pos hcreated]
      · rw [hconcat, if_neg hne.symm]
        exact ha

end Step

theorem historyOf_run (pair : String × String) (rows : List MembershipEventRow) :
    HistoryOf rows (PairHistory.run pair rows) := by
  induction rows using List.reverseRecOn with
  | nil => exact .nil pair
  | append_singleton rows row ih =>
    rw [PairHistory.run_concat]
    exact ih.step row

/-- Every group is the history of the events of its pair. -/
theorem historyOf_of_mem_groupByPair {rows : List MembershipEventRow}
    (h : history ∈ groupByPair rows) : HistoryOf (rows.filter (·.pair = history.pair)) history := by
  have hfound := lookup_of_mem (nodup_groupByPair rows) h
  rw [lookup_groupByPair] at hfound
  split at hfound
  · cases hfound
  · rw [← Option.some.inj hfound, PairHistory.pair_run]
    exact historyOf_run _ _

theorem exists_mem_groupByPair {rows : List MembershipEventRow} {row : MembershipEventRow} (h : row ∈ rows) :
    ∃ history ∈ groupByPair rows, history.pair = row.pair := by
  have hfound := lookup_groupByPair rows row.pair
  rw [if_neg (List.ne_nil_of_mem (List.mem_filter.2 ⟨h, by simp⟩))] at hfound
  exact ⟨_, KeyedRows.mem_of_lookup hfound, key_of_lookup hfound⟩

/-! ## What is archived -/

theorem mem_of_streamToKeep {kept : MembershipStream} (h : streamToKeep streams = some kept) : kept ∈ streams := by
  unfold streamToKeep at h
  rcases Option.or_eq_some_iff.1 h with hfound | ⟨-, hhead⟩
  · exact List.mem_mergeSort.1 (List.mem_of_find?_eq_some hfound)
  · exact List.mem_mergeSort.1 (List.mem_of_head? hhead)

/-- An alive stream beats a removed one. -/
theorem alive_of_streamToKeep {kept stream : MembershipStream}
    (h : streamToKeep streams = some kept) (hmem : stream ∈ streams) (halive : stream.alive = true) :
    kept.alive = true := by
  unfold streamToKeep at h
  rcases Option.or_eq_some_iff.1 h with hfound | ⟨hnone, -⟩
  · exact List.find?_some hfound
  · exact absurd halive (List.find?_eq_none.1 hnone stream (List.mem_mergeSort.2 hmem))

theorem exists_streamToKeep (hmem : stream ∈ streams) :
    ∃ kept, streamToKeep streams = some kept := by
  rw [← Option.isSome_iff_exists]
  unfold streamToKeep
  rw [Option.isSome_or, Bool.or_eq_true]
  exact .inr (List.isSome_head?.2 (List.ne_nil_of_mem (List.mem_mergeSort.2 hmem)))

theorem inArchivedStream_upsert (archived : List ArchivedStream) (marker : ArchivedStream) (e : MembershipLogEvent) :
    inArchivedStream (upsert ArchivedStream.key marker archived) e = true ↔
      inArchivedStream archived e = true ∨ marker.key = (e.tenantId, e.aggregateId) := by
  simp only [inArchivedStream, List.any_eq_true, decide_eq_true_eq]
  constructor
  · rintro ⟨a, ha, hkey⟩
    rcases mem_upsert.1 ha with rfl | ⟨ha, -⟩
    · exact .inr hkey
    · exact .inl ⟨a, ha, hkey⟩
  · rintro (⟨a, ha, hkey⟩ | hkey)
    · by_cases hsame : a.key = marker.key
      · exact ⟨marker, mem_upsert.2 (.inl rfl), hsame ▸ hkey⟩
      · exact ⟨a, mem_upsert.2 (.inr ⟨ha, hsame⟩), hkey⟩
    · exact ⟨marker, mem_upsert.2 (.inl rfl), hkey⟩

theorem inArchivedStream_archive (archived : List ArchivedStream) (stream : MembershipStream) (e : MembershipLogEvent) :
    inArchivedStream (archiveMembershipStream archived stream) e = true ↔
      inArchivedStream archived e = true ∨
        e.aggregateId = stream.aggregateId ∧ e.tenantId ∈ stream.streamTenantIds := by
  suffices ∀ tenantIds : List String, inArchivedStream (tenantIds.foldl (fun archived tenantId =>
      upsert ArchivedStream.key ⟨tenantId, stream.aggregateId, membershipAggregate⟩ archived) archived) e = true ↔
        inArchivedStream archived e = true ∨ e.aggregateId = stream.aggregateId ∧ e.tenantId ∈ tenantIds from
    this stream.streamTenantIds
  intro tenantIds
  induction tenantIds generalizing archived with
  | nil => simp
  | cons tenantId tenantIds ih =>
    rw [List.foldl_cons, ih, inArchivedStream_upsert, ArchivedStream.key, Prod.mk.injEq, List.mem_cons]
    constructor
    · rintro ((h | ⟨htenant, hagg⟩) | ⟨hagg, htenant⟩)
      · exact .inl h
      · exact .inr ⟨hagg.symm, .inl htenant.symm⟩
      · exact .inr ⟨hagg, .inr htenant⟩
    · rintro (h | ⟨hagg, htenant | htenant⟩)
      · exact .inl (.inl h)
      · exact .inl (.inr ⟨htenant.symm, hagg.symm⟩)
      · exact .inr ⟨hagg, htenant⟩

theorem inArchivedStream_foldl (archived : List ArchivedStream) (streams : List MembershipStream)
    (e : MembershipLogEvent) :
    inArchivedStream (streams.foldl archiveMembershipStream archived) e = true ↔
      inArchivedStream archived e = true ∨
        ∃ stream ∈ streams, e.aggregateId = stream.aggregateId ∧ e.tenantId ∈ stream.streamTenantIds := by
  induction streams generalizing archived with
  | nil => simp
  | cons stream streams ih =>
    rw [List.foldl_cons, ih, inArchivedStream_archive, List.exists_mem_cons_iff, or_assoc]

/-- The streams of a pair that lose their row. -/
def PairHistory.Loses (history : PairHistory) (aggregateId : String) : Prop :=
  ∃ stream ∈ history.unreplayable.map (·.1), stream.aggregateId = aggregateId

theorem PairHistory.mem_streams_of_unreplayable
    (h : stream ∈ history.unreplayable.map (·.1)) : stream ∈ history.streams := by
  obtain ⟨s, hs, rfl⟩ := List.mem_map.1 h
  unfold unreplayable at hs
  split at hs
  · obtain ⟨stream, hstream, rfl⟩ := List.mem_map.1 hs
    exact hstream
  · split at hs
    · cases hs
    · split at hs
      · cases hs
      · obtain ⟨stream, hstream, rfl⟩ := List.mem_map.1 hs
        exact (List.mem_filter.1 hstream).1

/-- A pair of an archived user loses every stream. -/
theorem PairHistory.loses_of_userArchived (h : history.streams.any (·.userArchived) = true)
    (hs : stream ∈ history.streams) : history.Loses stream.aggregateId := by
  refine ⟨stream, ?_, rfl⟩
  rw [unreplayable, if_pos h, List.map_map]
  exact List.mem_map.2 ⟨stream, hs, rfl⟩

/-- A pair that does not collide loses none. -/
theorem PairHistory.not_loses_of_apart (h : history.streams.any (·.userArchived) = false)
    (hc : history.collides = false) (aggregateId : String) : ¬history.Loses aggregateId := by
  rintro ⟨stream, hstream, -⟩
  rw [unreplayable, if_neg (by simp [h]), if_pos (by simp [hc])] at hstream
  cases hstream

/-- A pair that collides loses every stream but the one that is kept. -/
theorem PairHistory.loses_iff_of_collides (h : history.streams.any (·.userArchived) = false)
    (hc : history.collides = true) {kept : MembershipStream} (hk : streamToKeep history.streams = some kept)
    (hs : stream ∈ history.streams) :
    history.Loses stream.aggregateId ↔ stream.aggregateId ≠ kept.aggregateId := by
  unfold Loses
  rw [unreplayable, if_neg (by simp [h]), if_neg (by simp [hc])]
  simp only [hk, List.map_map, List.mem_map, List.mem_filter, Function.comp_def, decide_eq_true_eq]
  constructor
  · rintro ⟨_, ⟨other, ⟨-, hne⟩, rfl⟩, hagg⟩
    exact hagg ▸ hne
  · intro hne
    exact ⟨stream, ⟨stream, ⟨hs, hne⟩, rfl⟩, rfl⟩

/-- The kept stream of a pair of a user that is not archived stays. -/
theorem PairHistory.not_loses_kept (h : history.streams.any (·.userArchived) = false)
    {kept : MembershipStream} (hk : streamToKeep history.streams = some kept) : ¬history.Loses kept.aggregateId := by
  cases hc : history.collides with
  | false => exact not_loses_of_apart h hc _
  | true =>
    rw [loses_iff_of_collides h hc hk (mem_of_streamToKeep hk)]
    exact fun hne => hne rfl

/-! ## Events and rows -/

section Repair

variable {log : List MembershipLogEvent} {archived : List ArchivedStream} {row : String × List ℕ}
  {pair : String × String}

/-- The events of the rebuild. -/
def remaining (log : List MembershipLogEvent) (archived : List ArchivedStream) : List MembershipLogEvent :=
  log.filter (replayed archived)

/-- The events of a pair that are read, as events. -/
def readOfPair (log : List MembershipLogEvent) (archived : List ArchivedStream) (pair : String × String)
    (e : MembershipLogEvent) : Bool :=
  replayed archived e && e.type ∈ lifecycleTypes && pairOfStream log e.aggregateId = some pair

theorem acts_rowsOfPair (log : List MembershipLogEvent) (archived : List ArchivedStream) (pair : String × String)
    (events : List MembershipLogEvent) :
    (((events.filter (replayed archived)).filterMap (membershipEventRow log archived)).filter (·.pair = pair)).map
      (·.act) = (events.filter (readOfPair log archived pair)).map (·.act) := by
  induction events with
  | nil => rfl
  | cons e events ih =>
    by_cases hr : replayed archived e = true
    · rw [List.filter_cons_of_pos hr, List.filterMap_cons]
      by_cases hl : e.type ∈ lifecycleTypes
      · rw [membershipEventRow, if_pos hl]
        cases hp : pairOfStream log e.aggregateId with
        | none =>
          rw [List.filter_cons_of_neg (by simp [readOfPair, hp])]
          exact ih
        | some pair' =>
          by_cases hpair : pair' = pair
          · subst hpair
            rw [List.filter_cons_of_pos (p := readOfPair log archived pair') (by simp [readOfPair, hr, hl, hp])]
            simp only [Option.map_some, List.filter_cons, decide_true, if_true, List.map_cons, ih]
            rfl
          · rw [List.filter_cons_of_neg (p := readOfPair log archived pair) (by simp [readOfPair, hp, hpair])]
            simp only [Option.map_some, List.filter_cons, hpair, decide_false, Bool.false_eq_true, if_false, ih]
      · rw [membershipEventRow, if_neg hl, List.filter_cons_of_neg (by simp [readOfPair, hl])]
        exact ih
    · rw [List.filter_cons_of_neg hr, List.filter_cons_of_neg (by simp [readOfPair, hr])]
      exact ih

/-- Whether a stream is alive depends on its lifecycle events only. -/
theorem aliveAfter_congr {p q : MembershipLogEvent → Bool}
    (h : ∀ e ∈ events, e.aggregateId = aggregateId → e.type ∈ lifecycleTypes → p e = q e) :
    aliveAfter ((events.filter p).map (·.act)) aggregateId =
      aliveAfter ((events.filter q).map (·.act)) aggregateId := by
  have hskip (acts : List (String × String)) (e : MembershipLogEvent)
      (he : ¬(e.aggregateId = aggregateId ∧ e.type ∈ lifecycleTypes)) :
      aliveAfter (acts ++ [e.act]) aggregateId = aliveAfter acts aggregateId := by
    rw [aliveAfter_concat]
    split
    · next hagg =>
      have htype : e.type ∉ lifecycleTypes := fun ht => he ⟨hagg, ht⟩
      have hcreated : e.type ≠ membershipEvent "created" := fun ht => htype (ht ▸ by decide)
      have hremoved : e.type ∉ rowRemovingTypes := fun ht =>
        htype (List.mem_cons_of_mem _ (List.mem_cons_of_mem _ ht))
      show aliveThen e.type _ = _
      rw [aliveThen, if_neg hcreated, if_neg hremoved]
    · rfl
  induction events using List.reverseRecOn with
  | nil => rfl
  | append_singleton events e ih =>
    have ih := ih fun e' he' => h e' (List.mem_append_left _ he')
    have hlast (r : MembershipLogEvent → Bool) : ((events ++ [e]).filter r).map (·.act) =
        (events.filter r).map (·.act) ++ if r e then [e.act] else [] := by
      cases hr : r e <;> simp [hr]
    rw [hlast, hlast]
    by_cases he : e.aggregateId = aggregateId ∧ e.type ∈ lifecycleTypes
    · rw [h e (by simp) he.1 he.2]
      split
      · rw [aliveAfter_concat, aliveAfter_concat, ih]
      · simpa using ih
    · have hdrop (r : MembershipLogEvent → Bool) :
          aliveAfter ((events.filter r).map (·.act) ++ if r e then [e.act] else []) aggregateId =
            aliveAfter ((events.filter r).map (·.act)) aggregateId := by
        split
        · exact hskip _ e he
        · rw [List.append_nil]
      rw [hdrop, hdrop, ih]

theorem mem_readMembershipEvents {row : MembershipEventRow} (h : row ∈ readMembershipEvents log archived) :
    ∃ e ∈ log, replayed archived e = true ∧ e.aggregateId = row.aggregateId ∧ e.tenantId = row.streamTenantId ∧
      pairOfStream log row.aggregateId = some row.pair ∧ row.userArchived = isArchivedUser log archived row.pair.1 := by
  obtain ⟨e, he, hrow⟩ := List.mem_filterMap.1 h
  obtain ⟨he, hr⟩ := List.mem_filter.1 he
  unfold membershipEventRow at hrow
  split at hrow
  · obtain ⟨pair, hpair, rfl⟩ := Option.map_eq_some_iff.1 hrow
    exact ⟨e, he, hr, rfl, rfl, hpair, rfl⟩
  · cases hrow

theorem exists_row (he : e ∈ log) (hr : replayed archived e = true)
    (hl : e.type ∈ lifecycleTypes) (hp : pairOfStream log e.aggregateId = some pair) :
    ∃ row ∈ readMembershipEvents log archived, row.aggregateId = e.aggregateId ∧ row.streamTenantId = e.tenantId ∧
      row.pair = pair := by
  refine ⟨⟨e.id, e.aggregateId, e.tenantId, e.type, pair, isArchivedUser log archived pair.1⟩,
    List.mem_filterMap.2 ⟨e, List.mem_filter.2 ⟨he, hr⟩, ?_⟩, rfl, rfl, rfl⟩
  rw [membershipEventRow, if_pos hl, hp]
  rfl

/-! ## Groups -/

/-- The streams of a group are those of its pair. -/
theorem pair_of_stream (hg : history ∈ groupByPair (readMembershipEvents log archived))
    (hs : stream ∈ history.streams) :
    pairOfStream log stream.aggregateId = some history.pair ∧
      stream.userArchived = isArchivedUser log archived history.pair.1 := by
  obtain ⟨row, hrow, hagg, huser⟩ := (historyOf_of_mem_groupByPair hg).origin stream hs
  obtain ⟨hrow, hpair⟩ := List.mem_filter.1 hrow
  obtain ⟨-, -, -, -, -, hrowPair, hrowUser⟩ := mem_readMembershipEvents hrow
  rw [of_decide_eq_true hpair] at hrowPair hrowUser
  exact ⟨hagg ▸ hrowPair, huser ▸ hrowUser⟩

/-- An event that is read belongs to one group, and its stream to that. -/
theorem exists_group (he : e ∈ log) (hr : replayed archived e = true)
    (hl : e.type ∈ lifecycleTypes) (hp : pairOfStream log e.aggregateId = some pair) :
    ∃ history ∈ groupByPair (readMembershipEvents log archived), history.pair = pair ∧
      ∃ stream ∈ history.streams, stream.aggregateId = e.aggregateId ∧ e.tenantId ∈ stream.streamTenantIds := by
  obtain ⟨row, hrow, hagg, htenant, rfl⟩ := exists_row he hr hl hp
  obtain ⟨history, hg, hpair⟩ := exists_mem_groupByPair hrow
  obtain ⟨stream, hs, hsagg, hstenant⟩ :=
    (historyOf_of_mem_groupByPair hg).tracked row (List.mem_filter.2 ⟨hrow, by simp [hpair]⟩)
  exact ⟨history, hg, hpair, stream, hs, hsagg.trans hagg, htenant ▸ hstenant⟩

theorem group_unique {history history' : PairHistory} (hg : history ∈ groupByPair (readMembershipEvents log archived))
    (hg' : history' ∈ groupByPair (readMembershipEvents log archived)) (h : history.pair = history'.pair) :
    history = history' :=
  List.inj_on_of_nodup_map (nodup_groupByPair _) hg hg' h

theorem exists_stream (hg : history ∈ groupByPair (readMembershipEvents log archived)) :
    ∃ stream, stream ∈ history.streams := by
  have hfound := lookup_of_mem (nodup_groupByPair _) hg
  rw [lookup_groupByPair] at hfound
  split at hfound
  · cases hfound
  · next hne =>
    obtain ⟨row, hrow⟩ := List.exists_mem_of_ne_nil _ hne
    obtain ⟨stream, hs, -⟩ := (historyOf_of_mem_groupByPair hg).tracked row hrow
    exact ⟨stream, hs⟩

theorem any_userArchived (hg : history ∈ groupByPair (readMembershipEvents log archived)) :
    history.streams.any (·.userArchived) = isArchivedUser log archived history.pair.1 := by
  obtain ⟨stream, hs⟩ := exists_stream hg
  rw [Bool.eq_iff_iff, List.any_eq_true]
  constructor
  · rintro ⟨other, hother, hu⟩
    exact (pair_of_stream hg hother).2 ▸ hu
  · intro hu
    exact ⟨stream, hs, (pair_of_stream hg hs).2.trans hu⟩

/-- After the repair an event is in an archived stream just when it was, or its stream loses its row. -/
theorem replayed_after (hg : history ∈ groupByPair (readMembershipEvents log archived))
    (he : e ∈ log) (hl : e.type ∈ lifecycleTypes) (hp : pairOfStream log e.aggregateId = some history.pair) :
    replayed (archiveUnreplayableMembershipStreams log archived).1 e = true ↔
      replayed archived e = true ∧ ¬history.Loses e.aggregateId := by
  have hafter := inArchivedStream_foldl archived
    (((groupByPair (readMembershipEvents log archived)).flatMap (·.unreplayable)).map (·.1)) e
  simp only [replayed, Bool.and_eq_true, Bool.not_eq_true', decide_eq_true_eq, ← Bool.not_eq_true,
    archiveUnreplayableMembershipStreams]
  rw [hafter, not_or, and_assoc]
  refine and_congr_right fun hm => and_congr_right fun hnot => not_congr ?_
  have hr : replayed archived e = true := by simp [replayed, hm, hnot]
  constructor
  · rintro ⟨stream, hstream, hagg, -⟩
    obtain ⟨s, hs, rfl⟩ := List.mem_map.1 hstream
    obtain ⟨other, hother, hs⟩ := List.mem_flatMap.1 hs
    have hmem : s.1 ∈ other.unreplayable.map (·.1) := List.mem_map_of_mem hs
    have hpair := (pair_of_stream hother (PairHistory.mem_streams_of_unreplayable hmem)).1
    rw [← hagg, hp] at hpair
    obtain rfl := group_unique hg hother (Option.some.inj hpair)
    exact ⟨s.1, hmem, hagg.symm⟩
  · rintro ⟨stream, hstream, hagg⟩
    obtain ⟨history', hg', hpair', stream', hs', hagg', htenant⟩ := exists_group he hr hl hp
    obtain rfl := group_unique hg hg' hpair'.symm
    have hsame := List.inj_on_of_nodup_map (historyOf_of_mem_groupByPair hg).nodup
      (PairHistory.mem_streams_of_unreplayable hstream) hs' (hagg.trans hagg'.symm)
    obtain ⟨s, hs, rfl⟩ := List.mem_map.1 hstream
    exact ⟨s.1, List.mem_map.2 ⟨s, List.mem_flatMap.2 ⟨history, hg, hs⟩, rfl⟩, hagg.symm, hsame ▸ htenant⟩

/-! ## The rows of the rebuild -/

theorem pairOfStream_eq_some :
    pairOfStream log aggregateId = some pair ↔ ∃ c, firstCreated log aggregateId = some c ∧
      c.userId = some pair.1 ∧ c.memberTenantId = some pair.2 := by
  unfold pairOfStream
  cases firstCreated log aggregateId with
  | none => simp
  | some c =>
    cases hu : c.userId <;> cases ht : c.memberTenantId <;> simp [hu, ht, Prod.ext_iff]

theorem NamesPairs.streamRow_eq_some (hlog : NamesPairs log) :
    streamRow log aggregateId = some row ↔
      ∃ memberTenantId, pairOfStream log aggregateId = some (row.1, memberTenantId) ∧
        uuidIn memberTenantId = some row.2 := by
  unfold streamRow pairOfStream
  cases hfirst : firstCreated log aggregateId with
  | none => simp
  | some c =>
    obtain ⟨hc, -, hm, hcreated⟩ := firstCreated_eq_some hfirst
    obtain ⟨userId, memberTenantId, tenantId, huser, htenant, huuid⟩ := hlog.named c hc hm hcreated
    obtain ⟨user, tenant⟩ := row
    simp [createdMembershipRow, huser, htenant, huuid]

/-- Streams with the same row belong to one pair. -/
theorem NamesPairs.pairOfStream_eq (hlog : NamesPairs log) {a b : String}
    (ha : streamRow log a = some row) (hb : streamRow log b = some row) : pairOfStream log a = pairOfStream log b := by
  obtain ⟨ta, hpa, hua⟩ := hlog.streamRow_eq_some.1 ha
  obtain ⟨tb, hpb, hub⟩ := hlog.streamRow_eq_some.1 hb
  have hsame : some ta = some tb := by
    obtain ⟨ca, hca, -, hta⟩ := pairOfStream_eq_some.1 hpa
    obtain ⟨cb, hcb, -, htb⟩ := pairOfStream_eq_some.1 hpb
    obtain ⟨hal, -, hma, hcra⟩ := firstCreated_eq_some hca
    obtain ⟨hbl, -, hmb, hcrb⟩ := firstCreated_eq_some hcb
    have hspelling := hlog.oneSpelling ca hal cb hbl hma hmb hcra hcrb (by rw [hta, htb]; exact hua.trans hub.symm)
    rw [← hta, ← htb, hspelling]
  rw [hpa, hpb, Option.some.inj hsame]

theorem sub_of_replayed (hsub : ∀ e ∈ events, e ∈ log) :
    ∀ e ∈ events.filter (replayed archived), e ∈ log ∧ e.aggregateType = membershipAggregate := by
  intro e he
  obtain ⟨he, hr⟩ := List.mem_filter.1 he
  simp only [replayed, Bool.and_eq_true, decide_eq_true_eq] at hr
  exact ⟨hsub e he, hr.1⟩

/-- A row of a rebuild is the row of a stream that is alive. -/
theorem NamesPairs.replay_eq_some (hlog : NamesPairs log) (hsub : ∀ e ∈ events, e ∈ log) {a : String} :
    replay (events.filter (replayed archived)) a = some row ↔
      aliveAfter ((events.filter (replayed archived)).map (·.act)) a = true ∧ streamRow log a = some row := by
  rw [hlog.replay_eq (sub_of_replayed hsub)]
  split
  · next halive => simp [halive]
  · next halive => simp [halive]

theorem replayed_of_after
    (h : replayed (archiveUnreplayableMembershipStreams log archived).1 e = true) : replayed archived e = true := by
  simp only [replayed, Bool.and_eq_true, Bool.not_eq_true', decide_eq_true_eq, ← Bool.not_eq_true] at h ⊢
  exact ⟨h.1, fun hbefore => h.2 ((inArchivedStream_foldl _ _ _).2 (.inl hbefore))⟩

/-- A stream with a row in the rebuild after the repair is one that its pair does not lose. -/
theorem exists_group_of_alive (hsub : ∀ e ∈ events, e ∈ log) {a : String}
    (h : aliveAfter ((events.filter (replayed (archiveUnreplayableMembershipStreams log archived).1)).map (·.act)) a =
      true) (hp : pairOfStream log a = some pair) :
    ∃ history ∈ groupByPair (readMembershipEvents log archived), history.pair = pair ∧ ¬history.Loses a ∧
      ∃ stream ∈ history.streams, stream.aggregateId = a := by
  obtain ⟨e, he, hact⟩ := List.mem_map.1 (exists_created_of_aliveAfter h)
  obtain ⟨he, hr⟩ := List.mem_filter.1 he
  obtain rfl : e.aggregateId = a := congrArg Prod.fst hact
  have htype : e.type = membershipEvent "created" := congrArg Prod.snd hact
  have hl : e.type ∈ lifecycleTypes := htype ▸ List.mem_cons_self
  obtain ⟨history, hg, rfl, stream, hs, hagg, -⟩ := exists_group (hsub e he) (replayed_of_after hr) hl hp
  exact ⟨history, hg, rfl, ((replayed_after hg (hsub e he) hl hp).1 hr).2, stream, hs, hagg⟩

section Stream

variable {history : PairHistory} (hg : history ∈ groupByPair (readMembershipEvents log archived))
  {events : List MembershipLogEvent} {a : String} (hp : pairOfStream log a = some history.pair)
include hp

/-- The rows of a pair tell which of its streams are alive. -/
theorem aliveAfter_rows : aliveAfter ((((events.filter (replayed archived)).filterMap
    (membershipEventRow log archived)).filter (·.pair = history.pair)).map (·.act)) a =
      aliveAfter ((events.filter (replayed archived)).map (·.act)) a := by
  rw [acts_rowsOfPair]
  refine aliveAfter_congr fun e _ hagg hl => ?_
  simp [readOfPair, hl, hagg, hp]

include hg

/-- The repair does not touch a stream that its pair does not lose. -/
theorem aliveAfter_after (hsub : ∀ e ∈ events, e ∈ log) (hstays : ¬history.Loses a) :
    aliveAfter ((events.filter (replayed (archiveUnreplayableMembershipStreams log archived).1)).map (·.act)) a =
      aliveAfter ((events.filter (replayed archived)).map (·.act)) a := by
  refine aliveAfter_congr fun e he hagg hl => ?_
  have hafter := replayed_after hg (hsub e he) hl (hagg ▸ hp)
  rw [hagg] at hafter
  rw [Bool.eq_iff_iff, hafter]
  exact and_iff_left hstays

end Stream

/-- At no time does the rebuild after the repair have two rows for a pair. -/
theorem NamesPairs.replay_inj (hlog : NamesPairs log) {before : List MembershipLogEvent}
    (hbefore : before <+: remaining log (archiveUnreplayableMembershipStreams log archived).1) {a b : String}
    (ha : replay before a = some row) (hb : replay before b = some row) : a = b := by
  obtain ⟨events, hstart, rfl⟩ := List.prefix_filter_iff.1 hbefore
  have hsub (e : MembershipLogEvent) (he : e ∈ events) : e ∈ log := hstart.subset he
  obtain ⟨halive, hrow⟩ := (hlog.replay_eq_some hsub).1 ha
  obtain ⟨hblive, hbrow⟩ := (hlog.replay_eq_some hsub).1 hb
  obtain ⟨memberTenantId, hp, -⟩ := hlog.streamRow_eq_some.1 hrow
  have hpb := (hlog.pairOfStream_eq hbrow hrow).trans hp
  obtain ⟨history, hg, hpair, hstays, stream, hs, hagg⟩ := exists_group_of_alive hsub halive hp
  obtain ⟨history', hg', hpair', hbstays, stream', hs', hagg'⟩ := exists_group_of_alive hsub hblive hpb
  obtain rfl := group_unique hg hg' (hpair.trans hpair'.symm)
  cases hu : history.streams.any (·.userArchived) with
  | true => exact absurd (hagg ▸ PairHistory.loses_of_userArchived hu hs) hstays
  | false =>
    cases hc : history.collides with
    | true =>
      obtain ⟨kept, hk⟩ := exists_streamToKeep hs
      have hsame := not_not.1 ((PairHistory.loses_iff_of_collides hu hc hk hs).not.1 (hagg ▸ hstays))
      have hsame' := not_not.1 ((PairHistory.loses_iff_of_collides hu hc hk hs').not.1 (hagg' ▸ hbstays))
      rw [← hagg, ← hagg', hsame, hsame']
    | false =>
      have hrows : ((events.filter (replayed archived)).filterMap (membershipEventRow log archived)).filter
          (·.pair = history.pair) <+: (readMembershipEvents log archived).filter (·.pair = history.pair) :=
        ((hstart.filter _).filterMap _).filter _
      refine (historyOf_of_mem_groupByPair hg).apart hc _ hrows a b ?_ ?_
      · rw [aliveAfter_rows (hpair ▸ hp), ← aliveAfter_after hg (hpair ▸ hp) hsub hstays]
        exact halive
      · rw [aliveAfter_rows (hpair ▸ hpb), ← aliveAfter_after hg (hpair ▸ hpb) hsub hbstays]
        exact hblive

section Final

variable {history : PairHistory} {tenantId : List ℕ}
  (hlog : NamesPairs log) (hg : history ∈ groupByPair (readMembershipEvents log archived))
  (huuid : uuidIn history.pair.2 = some tenantId)
include hlog hg huuid

theorem NamesPairs.streamRow_of_stream (hs : stream ∈ history.streams) :
    streamRow log stream.aggregateId = some (history.pair.1, tenantId) :=
  hlog.streamRow_eq_some.2 ⟨history.pair.2, (pair_of_stream hg hs).1, huuid⟩

/-- A row of the pair is the row of one of its streams, which the repair leaves. -/
theorem NamesPairs.stream_of_row {a : String} (h : replay
      (remaining log (archiveUnreplayableMembershipStreams log archived).1) a = some (history.pair.1, tenantId)) :
    ¬history.Loses a ∧ ∃ stream ∈ history.streams, stream.aggregateId = a ∧ stream.alive = true := by
  have hsub (e : MembershipLogEvent) (he : e ∈ log) : e ∈ log := he
  obtain ⟨halive, hrow⟩ := (hlog.replay_eq_some hsub).1 h
  obtain ⟨other, hother⟩ := exists_stream hg
  have hp : pairOfStream log a = some history.pair :=
    (hlog.pairOfStream_eq hrow (hlog.streamRow_of_stream hg huuid hother)).trans (pair_of_stream hg hother).1
  obtain ⟨history', hg', hpair, hstays, stream, hs, rfl⟩ := exists_group_of_alive hsub halive hp
  obtain rfl := group_unique hg hg' hpair.symm
  refine ⟨hstays, stream, hs, rfl, ?_⟩
  rw [(historyOf_of_mem_groupByPair hg).alive stream hs]
  refine (aliveAfter_rows hp).trans ?_
  rw [← aliveAfter_after hg hp hsub hstays]
  exact halive

/-- The membership of an archived user is not rebuilt. -/
theorem NamesPairs.replay_ne_of_archived (hu : isArchivedUser log archived history.pair.1 = true) (a : String) :
    replay (remaining log (archiveUnreplayableMembershipStreams log archived).1) a ≠
      some (history.pair.1, tenantId) := by
  intro h
  obtain ⟨hstays, stream, hs, rfl, -⟩ := hlog.stream_of_row hg huuid h
  exact hstays (PairHistory.loses_of_userArchived ((any_userArchived hg).trans hu) hs)

/-- A membership is rebuilt just when the stream that is kept has a row without the repair. -/
theorem NamesPairs.exists_replay_iff (hu : isArchivedUser log archived history.pair.1 = false) :
    ∃ kept, streamToKeep history.streams = some kept ∧
      ((∃ a, replay (remaining log (archiveUnreplayableMembershipStreams log archived).1) a =
        some (history.pair.1, tenantId)) ↔
        replay (remaining log archived) kept.aggregateId = some (history.pair.1, tenantId)) := by
  obtain ⟨stream, hs⟩ := exists_stream hg
  obtain ⟨kept, hk⟩ := exists_streamToKeep hs
  have hkept := mem_of_streamToKeep hk
  have hsub (e : MembershipLogEvent) (he : e ∈ log) : e ∈ log := he
  have hp := (pair_of_stream hg hkept).1
  have hrow := hlog.streamRow_of_stream hg huuid hkept
  have halive : kept.alive = aliveAfter ((log.filter (replayed archived)).map (·.act)) kept.aggregateId :=
    ((historyOf_of_mem_groupByPair hg).alive kept hkept).trans (aliveAfter_rows hp)
  refine ⟨kept, hk, ⟨?_, fun h => ⟨kept.aggregateId, ?_⟩⟩⟩
  · rintro ⟨a, ha⟩
    obtain ⟨-, other, hother, -, hlive⟩ := hlog.stream_of_row hg huuid ha
    exact (hlog.replay_eq_some hsub).2 ⟨halive ▸ alive_of_streamToKeep hk hother hlive, hrow⟩
  · have hstays := PairHistory.not_loses_kept ((any_userArchived hg).trans hu) hk
    refine (hlog.replay_eq_some hsub).2 ⟨?_, hrow⟩
    rw [aliveAfter_after hg hp hsub hstays]
    exact ((hlog.replay_eq_some hsub).1 h).1

/-- A pair of a user that is not archived loses nothing unless two of its streams have a row at the same time. -/
theorem NamesPairs.mem_remaining_of_apart (hu : isArchivedUser log archived history.pair.1 = false)
    (hapart : ∀ before, before <+: remaining log archived → ∀ a b,
      replay before a = some (history.pair.1, tenantId) → replay before b = some (history.pair.1, tenantId) → a = b)
    (he : e ∈ remaining log archived) (hl : e.type ∈ lifecycleTypes)
    (hp : pairOfStream log e.aggregateId = some history.pair) :
    e ∈ remaining log (archiveUnreplayableMembershipStreams log archived).1 := by
  obtain ⟨he, hr⟩ := List.mem_filter.1 he
  have hof := historyOf_of_mem_groupByPair hg
  have hc : history.collides = false := by
    refine Bool.eq_false_iff.2 fun hc => ?_
    obtain ⟨rows, hrows, a, b, hne, ha, hb⟩ := hof.overlap hc
    -- The rows are those of a beginning of the log.
    obtain ⟨rows', hrows', rfl⟩ := List.prefix_filter_iff.1 hrows
    obtain ⟨events', hevents', rfl⟩ := List.prefix_filterMap_iff.1 hrows'
    obtain ⟨events, hstart, rfl⟩ := List.prefix_filter_iff.1 hevents'
    have hsub (e : MembershipLogEvent) (he : e ∈ events) : e ∈ log := hstart.subset he
    have hlive (c : String) (hc : aliveAfter ((((events.filter (replayed archived)).filterMap
        (membershipEventRow log archived)).filter (·.pair = history.pair)).map (·.act)) c = true) :
        replay (events.filter (replayed archived)) c = some (history.pair.1, tenantId) := by
      obtain ⟨row, hrow, hact⟩ := List.mem_map.1 (exists_created_of_aliveAfter hc)
      obtain ⟨stream, hs, hagg, -⟩ := hof.tracked row (hrows.subset hrow)
      obtain rfl : stream.aggregateId = c := hagg.trans (congrArg Prod.fst hact)
      have hpc := (pair_of_stream hg hs).1
      rw [aliveAfter_rows hpc] at hc
      exact (hlog.replay_eq_some hsub).2 ⟨hc, hlog.streamRow_of_stream hg huuid hs⟩
    exact hne (hapart _ (hstart.filter _) a b (hlive a ha) (hlive b hb))
  have hstays := PairHistory.not_loses_of_apart ((any_userArchived hg).trans hu) hc e.aggregateId
  exact List.mem_filter.2 ⟨he, (replayed_after hg he hl hp).2 ⟨hr, hstays⟩⟩

end Final

end Repair

/-- After the repair, a rebuild has at most one row for a pair at any time; the pair of an archived user has none at the
end, and any other has one just when its kept stream had one; and the pair of a user that is not archived keeps its
streams where no two of them had a row at the same time. -/
theorem membership_history_repaired {log : List MembershipLogEvent} (hlog : NamesPairs log)
    (archived : List ArchivedStream) :
    (∀ before, before <+: remaining log (archiveUnreplayableMembershipStreams log archived).1 → ∀ a b row,
      replay before a = some row → replay before b = some row → a = b) ∧
    ∀ history ∈ groupByPair (readMembershipEvents log archived), ∀ tenantId, uuidIn history.pair.2 = some tenantId →
      if isArchivedUser log archived history.pair.1 then
        ∀ a, replay (remaining log (archiveUnreplayableMembershipStreams log archived).1) a ≠
          some (history.pair.1, tenantId)
      else
        (∃ kept, streamToKeep history.streams = some kept ∧
          ((∃ a, replay (remaining log (archiveUnreplayableMembershipStreams log archived).1) a =
            some (history.pair.1, tenantId)) ↔
            replay (remaining log archived) kept.aggregateId = some (history.pair.1, tenantId))) ∧
        ((∀ before, before <+: remaining log archived → ∀ a b, replay before a = some (history.pair.1, tenantId) →
            replay before b = some (history.pair.1, tenantId) → a = b) →
          ∀ e ∈ remaining log archived, e.type ∈ lifecycleTypes →
            pairOfStream log e.aggregateId = some history.pair →
            e ∈ remaining log (archiveUnreplayableMembershipStreams log archived).1) := by
  refine ⟨fun before hbefore a b row ha hb => hlog.replay_inj hbefore ha hb, fun history hg tenantId huuid => ?_⟩
  split
  · next hu => exact hlog.replay_ne_of_archived hg huuid hu
  · next hu =>
    have hu' := Bool.not_eq_true _ ▸ hu
    exact ⟨hlog.exists_replay_iff hg huuid hu', fun hapart e he hl hp =>
      hlog.mem_remaining_of_apart hg huuid hu' hapart he hl hp⟩

/-! One pair with two streams that are alive at the same time. -/

def acme : String := "aaaaaaaa-1111-4111-8111-111111111111"

def createdFor (id : ℕ) (aggregateId userId memberTenantId : String) : MembershipLogEvent :=
  ⟨id, acme, aggregateId, membershipAggregate, membershipEvent "created", some userId, some memberTenantId⟩

def collidingLog : List MembershipLogEvent := [createdFor 1 "first" "ann" acme, createdFor 2 "second" "ann" acme]

theorem pair_of_mem_collidingLog :
    ∀ e ∈ collidingLog, e.userId = some "ann" ∧ e.memberTenantId = some acme ∧ e.type = membershipEvent "created" := by
  decide +kernel

theorem namesPairs_collidingLog : NamesPairs collidingLog where
  named e he _ _ := by
    obtain ⟨huser, htenant, -⟩ := pair_of_mem_collidingLog e he
    exact ⟨_, _, _, huser, htenant, rfl⟩
  onePair e he e' he' _ _ _ _ _ := by
    obtain ⟨huser, htenant, -⟩ := pair_of_mem_collidingLog e he
    obtain ⟨huser', htenant', -⟩ := pair_of_mem_collidingLog e' he'
    exact ⟨huser.trans huser'.symm, htenant.trans htenant'.symm⟩
  oneSpelling e he e' he' _ _ _ _ _ :=
    (pair_of_mem_collidingLog e he).2.1.trans (pair_of_mem_collidingLog e' he').2.1.symm
  updates e he _ hu := by
    have hcreated := (pair_of_mem_collidingLog e he).2.2
    rw [hu] at hcreated
    exact absurd hcreated (by decide)

theorem membership_history_repaired_collidingLog :
    (∀ before, before <+: remaining collidingLog (archiveUnreplayableMembershipStreams collidingLog []).1 →
      ∀ a b row, replay before a = some row → replay before b = some row → a = b) ∧
    ∀ history ∈ groupByPair (readMembershipEvents collidingLog []), ∀ tenantId,
      uuidIn history.pair.2 = some tenantId →
      if isArchivedUser collidingLog [] history.pair.1 then
        ∀ a, replay (remaining collidingLog (archiveUnreplayableMembershipStreams collidingLog []).1) a ≠
          some (history.pair.1, tenantId)
      else
        (∃ kept, streamToKeep history.streams = some kept ∧
          ((∃ a, replay (remaining collidingLog (archiveUnreplayableMembershipStreams collidingLog []).1) a =
            some (history.pair.1, tenantId)) ↔
            replay (remaining collidingLog []) kept.aggregateId = some (history.pair.1, tenantId))) ∧
        ((∀ before, before <+: remaining collidingLog [] → ∀ a b, replay before a = some (history.pair.1, tenantId) →
            replay before b = some (history.pair.1, tenantId) → a = b) →
          ∀ e ∈ remaining collidingLog [], e.type ∈ lifecycleTypes →
            pairOfStream collidingLog e.aggregateId = some history.pair →
            e ∈ remaining collidingLog (archiveUnreplayableMembershipStreams collidingLog []).1) :=
  membership_history_repaired namesPairs_collidingLog []

/-! Where the pairs are not named, or the user is archived. -/

/-- Two rows of the rebuild after the repair name one pair. -/
def TwoRows (log : List MembershipLogEvent) : Prop :=
  ∃ a b row, a ≠ b ∧ replay (remaining log (archiveUnreplayableMembershipStreams log []).1) a = some row ∧
    replay (remaining log (archiveUnreplayableMembershipStreams log []).1) b = some row

def archivedAnn : List ArchivedStream := [⟨acme, "ann", userAggregate⟩]

/-- The one stream of an archived user is archived though no other one was ever alive; and two rows of one pair are left
where an update changes the user, where a tenant is spelled in two ways, where a created event names no tenant, and
where a stream is created again for another user. -/
theorem not_membership_history_repaired :
    ((∀ before, before <+: remaining [createdFor 1 "first" "ann" acme] archivedAnn → ∀ a b row,
        replay before a = some row → replay before b = some row → a = b) ∧
      createdFor 1 "first" "ann" acme ∈ remaining [createdFor 1 "first" "ann" acme] archivedAnn ∧
      createdFor 1 "first" "ann" acme ∉ remaining [createdFor 1 "first" "ann" acme]
        (archiveUnreplayableMembershipStreams [createdFor 1 "first" "ann" acme] archivedAnn).1) ∧
    TwoRows [createdFor 1 "first" "ann" acme, createdFor 2 "second" "bob" acme,
      ⟨3, acme, "second", membershipAggregate, membershipEvent "updated", some "ann", none⟩] ∧
    TwoRows [createdFor 1 "first" "ann" acme, createdFor 2 "second" "ann" "AAAAAAAA-1111-4111-8111-111111111111"] ∧
    TwoRows [createdFor 1 "first" "ann" acme,
      ⟨2, acme, "second", membershipAggregate, membershipEvent "created", some "ann", none⟩] ∧
    TwoRows [createdFor 1 "first" "ann" acme, createdFor 2 "second" "bob" acme,
      ⟨3, acme, "second", membershipAggregate, membershipEvent "deleted", none, none⟩,
      createdFor 4 "second" "ann" acme] := by
  refine ⟨⟨?_, by decide +kernel, by decide +kernel⟩, ⟨"first", "second", _, by decide, rfl, rfl⟩,
    ⟨"first", "second", _, by decide, rfl, rfl⟩, ⟨"first", "second", _, by decide, rfl, rfl⟩,
    ⟨"first", "second", _, by decide, rfl, rfl⟩⟩
  intro before hbefore a b row ha hb
  have honly (c : String) (hc : replay before c = some row) : c = "first" := by
    by_contra hne
    have hnone : replay before c = none := by
      have hevents : ∀ e ∈ before, e = createdFor 1 "first" "ann" acme := fun e he =>
        List.mem_singleton.1 ((List.filter_sublist.subset) (hbefore.subset he))
      clear hc ha hb hbefore
      induction before using List.reverseRecOn with
      | nil => rfl
      | append_singleton before e ih =>
        rw [hevents e (by simp), replay, List.foldl_append]
        exact (Function.update_of_ne hne _ _).trans (ih fun e' he' => hevents e' (List.mem_append_left _ he'))
    rw [hnone] at hc
    cases hc
  rw [honly a ha, honly b hb]

end Kumiko
