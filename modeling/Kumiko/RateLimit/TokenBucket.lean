import Kumiko.Library.ExpiringKeys
import Kumiko.Library.Run
import Mathlib.Data.Rat.Floor
import Mathlib.Tactic.Positivity

/-!
# Token buckets

`rate-limit/resolver.ts` over exact rational numbers: scripts refill a bucket by the clock reading they are
given, and store the reading even where it lies before the stored one, so that time is refilled again. Where no
reading is behind its bucket and no bucket expires before it is full, what it grants over any stretch is at most
its limit and the refill (`granted_le_of_run`).
-/

namespace Kumiko

open Transition ExpiringKeys

/-! ## Scripts -/

/-- The limit and the window of a bucket. -/
structure BucketConfig where
  limit : ℚ
  windowSeconds : ℕ
  limit_pos : 0 < limit
  windowSeconds_pos : 0 < windowSeconds

namespace BucketConfig

variable (config : BucketConfig)

/-- `config.limit / (config.windowSeconds * 1000)` -/
def refillRatePerMs : ℚ := config.limit / (config.windowSeconds * 1000)

/-- `Math.max(1, config.windowSeconds * 2)` -/
def ttlSeconds : ℕ := max 1 (config.windowSeconds * 2)

theorem refillRatePerMs_pos : 0 < config.refillRatePerMs := by
  have hlimit := config.limit_pos
  have hwindow : (0 : ℚ) < config.windowSeconds := Nat.cast_pos.2 config.windowSeconds_pos
  unfold refillRatePerMs
  positivity

end BucketConfig

/-- The hash under the key of a bucket. -/
structure BucketHash where
  tokens : ℚ
  ts : ℤ

/-- The tokens at the reading, as every script computes them. -/
def refill (config : BucketConfig) (nowMs : ℤ) : Option BucketHash → ℚ
  | none => config.limit
  | some data =>
    let elapsed := max 0 (nowMs - data.ts)
    min config.limit (data.tokens + elapsed * config.refillRatePerMs)

/-- Reference: `TOKEN_BUCKET_LUA`; the hash that it stores, whether the cost is granted, the remaining tokens and the
milliseconds to wait. -/
def tokenBucketLua (config : BucketConfig) (cost : ℚ) (nowMs : ℤ) (data : Option BucketHash) :
    BucketHash × Bool × ℤ × ℤ :=
  let tokens := refill config nowMs data
  if cost ≤ tokens then (⟨tokens - cost, nowMs⟩, true, ⌊tokens - cost⌋, 0)
  else (⟨tokens, nowMs⟩, false, ⌊tokens⌋, ⌈(cost - tokens) / config.refillRatePerMs⌉)

/-- Reference: `TOKEN_BUCKET_PEEK_LUA`. -/
def tokenBucketPeekLua (config : BucketConfig) (nowMs : ℤ) (data : Option BucketHash) : ℤ × ℤ :=
  let tokens := refill config nowMs data
  (⌊tokens⌋, if tokens < 1 then ⌈(1 - tokens) / config.refillRatePerMs⌉ else 0)

/-- A call that charged a bucket or was refused: its reading and the cost that was granted. -/
structure BucketCall where
  nowMs : ℤ
  granted : ℚ

/-- The clock of the store, the buckets, and what was called on each, the last call first. -/
structure RateLimiter where
  redisNow : ℤ
  buckets : ExpiringKeys.Store String BucketHash
  calls : String → List BucketCall

/-- A bucket and the cost to charge. -/
structure BucketRequest where
  bucket : String
  cost : ℚ

/-- Reference: `RateLimitDecision`, with the instant in milliseconds. -/
structure RateLimitDecision where
  allowed : Bool
  limit : ℚ
  remaining : ℤ
  retryAfterSeconds : ℤ
  windowSeconds : ℕ
  resetAt : ℤ

/-- What `enforce` and `enforceAll` throw. -/
inductive RateLimitFailure where
  | internalError (message : String)
  /-- Reference: `RateLimitError`. -/
  | rateLimited (bucket : String) (limit : ℚ) (windowSeconds : ℕ) (remaining retryAfterSeconds resetAt : ℤ)

/-- Reference: `toPublicBucketName`. -/
def toPublicBucketName (bucket : String) : String := String.ofList (bucket.toList.takeWhile (· ≠ ':'))

/-- `Math.ceil(retryAfterMs / 1000)` -/
def retrySeconds (retryAfterMs : ℤ) : ℤ := ⌈(retryAfterMs / 1000 : ℚ)⌉

namespace RateLimiter

variable (conf : String → BucketConfig) (s : RateLimiter)

def initial (redisNow : ℤ) : RateLimiter := ⟨redisNow, fun _ => none, fun _ => []⟩

/-- `HMGET` of a bucket. -/
def data (bucket : String) : Option BucketHash := get s.redisNow s.buckets bucket

/-- The tokens of a bucket at the reading. -/
def available (nowMs : ℤ) (bucket : String) : ℚ := refill (conf bucket) nowMs (s.data bucket)

/-- `HMSET` and `EXPIRE` of a bucket, which ends a call on it. -/
def store (bucket : String) (hash : BucketHash) (granted : ℚ) : RateLimiter :=
  { s with
    buckets := set s.buckets bucket hash (s.redisNow + (conf bucket).ttlSeconds * 1000)
    calls := Function.update s.calls bucket (⟨hash.ts, granted⟩ :: s.calls bucket) }

/-- Reference: `check`. -/
def check (request : BucketRequest) (nowMs : ℤ) : RateLimiter × RateLimitDecision :=
  let config := conf request.bucket
  let (hash, allowed, remaining, retryAfterMs) := tokenBucketLua config request.cost nowMs (s.data request.bucket)
  (s.store conf request.bucket hash (if allowed then request.cost else 0),
    ⟨allowed, config.limit, remaining, retrySeconds retryAfterMs, config.windowSeconds, nowMs + retryAfterMs⟩)

/-- The error for a refused bucket. -/
def rejection (bucket : String) (decision : RateLimitDecision) : RateLimitFailure :=
  .rateLimited (toPublicBucketName bucket) decision.limit decision.windowSeconds decision.remaining
    decision.retryAfterSeconds decision.resetAt

/-- Reference: `enforce`. -/
def enforce (request : BucketRequest) (nowMs : ℤ) : RateLimiter × Except RateLimitFailure RateLimitDecision :=
  let (s, decision) := s.check conf request nowMs
  (s, if decision.allowed then .ok decision else .error (rejection request.bucket decision))

/-- The milliseconds until a bucket has enough tokens for the request. -/
def retryAfterMs (nowMs : ℤ) (request : BucketRequest) : ℤ :=
  let current := s.available conf nowMs request.bucket
  if request.cost ≤ current then 0 else ⌈(request.cost - current) / (conf request.bucket).refillRatePerMs⌉

/-- Whether every bucket has enough tokens. -/
def allAllowed (nowMs : ℤ) (requests : List BucketRequest) : Bool :=
  requests.all fun r => r.cost ≤ s.available conf nowMs r.bucket

/-- The cost that a bucket is charged. -/
def charge (nowMs : ℤ) (requests : List BucketRequest) (request : BucketRequest) : ℚ :=
  if s.allAllowed conf nowMs requests then request.cost else 0

/-- Reference: `TOKEN_BUCKET_ALL_LUA`; every bucket is read before one is stored. -/
def tokenBucketAllLua (nowMs : ℤ) (requests : List BucketRequest) : RateLimiter × Bool × List (ℤ × ℤ) :=
  let cost (r : BucketRequest) := s.charge conf nowMs requests r
  let left (r : BucketRequest) := s.available conf nowMs r.bucket - cost r
  (requests.foldl (fun s' r => s'.store conf r.bucket ⟨left r, nowMs⟩ (cost r)) s, s.allAllowed conf nowMs requests,
    requests.map fun r => (⌊left r⌋, s.retryAfterMs conf nowMs r))

/-- The decision for one bucket of several. -/
def outcome (nowMs : ℤ) (request : BucketRequest) (remaining retryAfterMs : ℤ) : RateLimitDecision :=
  let config := conf request.bucket
  ⟨retryAfterMs = 0, config.limit, remaining, retrySeconds retryAfterMs, config.windowSeconds, nowMs + retryAfterMs⟩

/-- The first bucket that stands in the requests again. -/
def duplicate : List BucketRequest → List String → Option String
  | [], _ => none
  | r :: rs, seen => if r.bucket ∈ seen then some r.bucket else duplicate rs (r.bucket :: seen)

/-- The outcome with the longest wait, the first of several. -/
def worst (first : String × ℤ × RateLimitDecision) (outcomes : List (String × ℤ × RateLimitDecision)) :
    String × ℤ × RateLimitDecision :=
  outcomes.foldl (fun worst outcome => if worst.2.1 < outcome.2.1 then outcome else worst) first

/-- Reference: `enforceAll`. -/
def enforceAll (requests : List BucketRequest) (nowMs : ℤ) :
    RateLimiter × Except RateLimitFailure (List RateLimitDecision) :=
  match duplicate requests [] with
  | some bucket =>
    (s, .error (.internalError ("enforceAll received the bucket \"" ++ bucket ++
      "\" more than once — merge the requests into one.")))
  | none =>
    let (s', allAllowedFlag, flat) := s.tokenBucketAllLua conf nowMs requests
    let outcomes := (requests.zip flat).map fun (r, remaining, retryAfterMs) =>
      (r.bucket, retryAfterMs, outcome conf nowMs r remaining retryAfterMs)
    match outcomes with
    | [] => (s, .ok [])
    | first :: rest =>
      if allAllowedFlag then (s', .ok (outcomes.map (·.2.2)))
      else
        let rejected := worst first rest
        (s', .error (rejection rejected.1 rejected.2.2))

/-- Reference: `peek`. -/
def peek (bucket : String) (nowMs : ℤ) : RateLimiter × RateLimitDecision :=
  let config := conf bucket
  let (remaining, retryAfterMs) := tokenBucketPeekLua config nowMs (s.data bucket)
  (s, ⟨1 ≤ remaining, config.limit, remaining, retrySeconds retryAfterMs, config.windowSeconds, nowMs + retryAfterMs⟩)

inductive Act where
  /-- The clock of the store moves on. -/
  | tick (ms : ℕ)
  | check (request : BucketRequest) (nowMs : ℤ)
  | enforceAll (requests : List BucketRequest) (nowMs : ℤ)
  | peek (bucket : String) (nowMs : ℤ)

def step (s : RateLimiter) : Act → Option RateLimiter
  | .tick ms => some { s with redisNow := s.redisNow + ms }
  | .check request nowMs => some (s.check conf request nowMs).1
  | .enforceAll requests nowMs => some (s.enforceAll conf requests nowMs).1
  | .peek bucket nowMs => some (s.peek conf bucket nowMs).1

/-- The cost that a stretch of calls was granted. -/
def grantedBy (calls : List BucketCall) : ℚ := (calls.map (·.granted)).sum

/-- The reading is not behind the bucket, and a bucket that has expired would be full by now. -/
def Forward (nowMs : ℤ) (bucket : String) : Prop :=
  ∀ entry ∈ s.buckets bucket, entry.1.ts ≤ nowMs ∧
    (entry.2 ≤ s.redisNow →
      (conf bucket).limit ≤ entry.1.tokens + (nowMs - entry.1.ts : ℤ) * (conf bucket).refillRatePerMs)

instance (nowMs : ℤ) (bucket : String) : Decidable (s.Forward conf nowMs bucket) :=
  inferInstanceAs (Decidable (∀ entry ∈ s.buckets bucket, _))

/-- Costs are not negative, and readings do not go back. -/
def ForwardAct (s : RateLimiter) : Act → Prop
  | .check request nowMs => 0 ≤ request.cost ∧ s.Forward conf nowMs request.bucket
  | .enforceAll requests nowMs => ∀ r ∈ requests, 0 ≤ r.cost ∧ s.Forward conf nowMs r.bucket
  | _ => True

instance : (a : Act) → Decidable (s.ForwardAct conf a)
  | .check .. => inferInstanceAs (Decidable (_ ∧ _))
  | .enforceAll requests nowMs =>
    inferInstanceAs (Decidable (∀ r ∈ requests, 0 ≤ r.cost ∧ s.Forward conf nowMs r.bucket))
  | .tick _ | .peek .. => .isTrue trivial

/-! ## One bucket -/

variable {conf : String → BucketConfig} {s s' : RateLimiter} {bucket : String} {nowMs : ℤ}

theorem refill_le_limit (config : BucketConfig) (nowMs : ℤ) (data : Option BucketHash) :
    refill config nowMs data ≤ config.limit := by
  cases data with
  | none => exact le_refl _
  | some data => exact min_le_left _ _

theorem refill_nonneg {config : BucketConfig} {data : Option BucketHash}
    (h : ∀ hash, data = some hash → 0 ≤ hash.tokens) : 0 ≤ refill config nowMs data := by
  cases data with
  | none => exact config.limit_pos.le
  | some data =>
    have htokens := h data rfl
    have helapsed : (0 : ℚ) ≤ max 0 (nowMs - data.ts) := by exact_mod_cast le_max_left 0 (nowMs - data.ts)
    have hrate := config.refillRatePerMs_pos
    exact le_min config.limit_pos.le (by positivity)

/-- A bucket that the reading is not behind has no more than what was left and what the time since refills. -/
theorem available_le (hf : s.Forward conf nowMs bucket) {hash : BucketHash} {expiry : ℤ}
    (h : s.buckets bucket = some (hash, expiry)) :
    s.available conf nowMs bucket ≤ hash.tokens + (nowMs - hash.ts : ℤ) * (conf bucket).refillRatePerMs := by
  obtain ⟨hts, hexpired⟩ : hash.ts ≤ nowMs ∧ _ := hf (hash, expiry) h
  unfold available data
  by_cases hlt : s.redisNow < expiry
  · rw [get_of_lt h hlt]
    have helapsed : max 0 (nowMs - hash.ts) = nowMs - hash.ts := max_eq_right (by omega)
    simp only [refill, helapsed]
    exact min_le_right _ _
  · have hnone : get s.redisNow s.buckets bucket = none := by simp [ExpiringKeys.get, h, hlt]
    rw [hnone]
    exact hexpired (not_lt.1 hlt)

/-- What holds of a bucket and its calls: the tokens are within the limit, and whatever was granted since some call was
there then or has been refilled. -/
structure BucketInv (conf : String → BucketConfig) (s : RateLimiter) (bucket : String) : Prop where
  fresh : s.buckets bucket = none → s.calls bucket = []
  last : ∀ hash expiry, s.buckets bucket = some (hash, expiry) → (s.calls bucket).head?.map (·.nowMs) = some hash.ts
  tokens : ∀ hash expiry, s.buckets bucket = some (hash, expiry) → 0 ≤ hash.tokens ∧ hash.tokens ≤ (conf bucket).limit
  since : ∀ hash expiry, s.buckets bucket = some (hash, expiry) → ∀ stretch first, stretch <+: s.calls bucket →
    stretch.getLast? = some first →
    grantedBy stretch + hash.tokens ≤ (conf bucket).limit + (hash.ts - first.nowMs : ℤ) * (conf bucket).refillRatePerMs
  bounded : ∀ stretch, stretch <:+: s.calls bucket → stretch ≠ [] →
    ∀ lo hi, (∀ c ∈ stretch, lo ≤ c.nowMs ∧ c.nowMs ≤ hi) →
    grantedBy stretch ≤ (conf bucket).limit + (hi - lo : ℤ) * (conf bucket).refillRatePerMs

theorem BucketInv.congr (hi : s.BucketInv conf bucket) (hb : s'.buckets bucket = s.buckets bucket)
    (hc : s'.calls bucket = s.calls bucket) : s'.BucketInv conf bucket where
  fresh h := by rw [hc]; exact hi.fresh (hb ▸ h)
  last hash expiry h := by rw [hc]; exact hi.last hash expiry (hb ▸ h)
  tokens hash expiry h := hi.tokens hash expiry (hb ▸ h)
  since hash expiry h := by rw [hc]; exact hi.since hash expiry (hb ▸ h)
  bounded := by rw [hc]; exact hi.bounded

theorem BucketInv.available_nonneg (hi : s.BucketInv conf bucket) : 0 ≤ s.available conf nowMs bucket := by
  refine refill_nonneg fun hash hdata => ?_
  obtain ⟨expiry, hstored, -⟩ := get_eq_some.1 hdata
  exact (hi.tokens hash expiry hstored).1

@[simp] theorem store_buckets_self (hash : BucketHash) (granted : ℚ) :
    (s.store conf bucket hash granted).buckets bucket =
      some (hash, s.redisNow + (conf bucket).ttlSeconds * 1000) := by
  simp [store, ExpiringKeys.set]

@[simp] theorem store_calls_self (hash : BucketHash) (granted : ℚ) :
    (s.store conf bucket hash granted).calls bucket = ⟨hash.ts, granted⟩ :: s.calls bucket := by
  simp [store]

theorem store_buckets_of_ne {other : String} (h : other ≠ bucket) (hash : BucketHash) (granted : ℚ) :
    (s.store conf bucket hash granted).buckets other = s.buckets other := by
  simp [store, ExpiringKeys.set, h]

theorem store_calls_of_ne {other : String} (h : other ≠ bucket) (hash : BucketHash) (granted : ℚ) :
    (s.store conf bucket hash granted).calls other = s.calls other := by
  simp [store, h]

theorem grantedBy_cons (c : BucketCall) (calls : List BucketCall) :
    grantedBy (c :: calls) = c.granted + grantedBy calls := by
  simp [grantedBy]

/-- A stretch that ends with the new call grants no more than what was there at its first call or has been refilled. -/
theorem BucketInv.since_store (hi : s.BucketInv conf bucket) (hf : s.Forward conf nowMs bucket) {granted : ℚ}
    {stretch : List BucketCall} {first : BucketCall} (hpre : stretch <+: ⟨nowMs, granted⟩ :: s.calls bucket)
    (hfirst : stretch.getLast? = some first) :
    grantedBy stretch + (s.available conf nowMs bucket - granted) ≤
      (conf bucket).limit + (nowMs - first.nowMs : ℤ) * (conf bucket).refillRatePerMs := by
  rcases List.prefix_cons_iff.1 hpre with rfl | ⟨older, rfl, holder⟩
  · cases hfirst
  · rw [grantedBy_cons]
    cases older with
    | nil =>
      obtain rfl : first = ⟨nowMs, granted⟩ := by simpa using hfirst.symm
      have hle := refill_le_limit (conf bucket) nowMs (s.data bucket)
      simp only [grantedBy, List.map_nil, List.sum_nil, sub_self, Int.cast_zero, zero_mul, available]
      linarith
    | cons c older =>
      -- The stretch before the new call ended with a call too.
      obtain ⟨⟨hash, expiry⟩, hstored⟩ : ∃ entry, s.buckets bucket = some entry := by
        rw [← Option.isSome_iff_exists, Option.isSome_iff_ne_none]
        intro hnone
        have hnil := hi.fresh hnone
        rw [hnil] at holder
        exact absurd (List.prefix_nil.1 holder) (by simp)
      have hbefore := hi.since hash expiry hstored (c :: older) first holder (by simpa using hfirst)
      have havailable := available_le hf hstored
      have hsplit : ((nowMs - first.nowMs : ℤ) : ℚ) = (nowMs - hash.ts : ℤ) + (hash.ts - first.nowMs : ℤ) := by
        push_cast; ring
      rw [hsplit, add_mul]
      linarith

/-- Charging a bucket at a reading that it is not ahead of keeps the invariant. -/
theorem BucketInv.store (hi : s.BucketInv conf bucket) (hf : s.Forward conf nowMs bucket) {granted : ℚ}
    (hpos : 0 ≤ granted) (hle : granted ≤ s.available conf nowMs bucket) :
    (s.store conf bucket ⟨s.available conf nowMs bucket - granted, nowMs⟩ granted).BucketInv conf bucket where
  fresh h := by simp at h
  last hash expiry h := by
    rw [store_buckets_self] at h
    cases h
    simp
  tokens hash expiry h := by
    rw [store_buckets_self] at h
    cases h
    have hlimit := refill_le_limit (conf bucket) nowMs (s.data bucket)
    exact ⟨sub_nonneg.2 hle, (sub_le_self _ hpos).trans hlimit⟩
  since hash expiry h stretch first hpre hfirst := by
    rw [store_buckets_self] at h
    cases h
    rw [store_calls_self] at hpre
    exact hi.since_store hf hpre hfirst
  bounded stretch hinfix hne lo hi' hspan := by
    rw [store_calls_self] at hinfix
    rcases List.infix_cons_iff.1 hinfix with hpre | hinfix
    · obtain ⟨first, hfirst⟩ := Option.isSome_iff_exists.1 (List.getLast?_isSome.2 hne)
      have hsince := hi.since_store hf hpre hfirst
      have hrate := (conf bucket).refillRatePerMs_pos
      have hlast : nowMs ≤ hi' := by
        rcases List.prefix_cons_iff.1 hpre with rfl | ⟨older, rfl, -⟩
        · exact absurd rfl hne
        · exact (hspan _ List.mem_cons_self).2
      have hlow : lo ≤ first.nowMs := (hspan first (List.mem_of_getLast? hfirst)).1
      have hcast : ((nowMs - first.nowMs : ℤ) : ℚ) ≤ (hi' - lo : ℤ) := by exact_mod_cast by omega
      have hmul := mul_le_mul_of_nonneg_right hcast hrate.le
      linarith
    · exact hi.bounded stretch hinfix hne lo hi' hspan

/-! ## Several buckets -/

theorem nodup_of_duplicate_eq_none {requests : List BucketRequest} {seen : List String}
    (h : duplicate requests seen = none) :
    (requests.map (·.bucket)).Nodup ∧ ∀ r ∈ requests, r.bucket ∉ seen := by
  induction requests generalizing seen with
  | nil => exact ⟨List.nodup_nil, fun _ h => nomatch h⟩
  | cons r rs ih =>
    simp only [duplicate] at h
    split at h
    · cases h
    · next hseen =>
      obtain ⟨hnodup, hrest⟩ := ih h
      refine ⟨List.nodup_cons.2 ⟨fun hmem => ?_, hnodup⟩, fun r' hr' => ?_⟩
      · obtain ⟨r', hr', heq⟩ := List.mem_map.1 hmem
        exact hrest r' hr' (heq ▸ List.mem_cons_self)
      · rcases List.mem_cons.1 hr' with rfl | hr'
        · exact hseen
        · exact fun hmem => hrest r' hr' (List.mem_cons_of_mem _ hmem)

section Fold

variable (hash : BucketRequest → BucketHash) (granted : BucketRequest → ℚ) (conf : String → BucketConfig)
  (s : RateLimiter)

/-- The buckets are stored one after the other. -/
def storeAll (requests : List BucketRequest) : RateLimiter :=
  requests.foldl (fun s r => s.store conf r.bucket (hash r) (granted r)) s

theorem storeAll_redisNow (requests : List BucketRequest) :
    (storeAll hash granted conf s requests).redisNow = s.redisNow := by
  induction requests generalizing s with
  | nil => rfl
  | cons r rs ih => exact ih (s.store conf r.bucket (hash r) (granted r))

theorem storeAll_of_notMem {requests : List BucketRequest} (h : bucket ∉ requests.map (·.bucket)) :
    (storeAll hash granted conf s requests).buckets bucket = s.buckets bucket ∧
      (storeAll hash granted conf s requests).calls bucket = s.calls bucket := by
  induction requests generalizing s with
  | nil => exact ⟨rfl, rfl⟩
  | cons r rs ih =>
    rw [List.map_cons, List.mem_cons, not_or] at h
    obtain ⟨hbuckets, hcalls⟩ := ih (s.store conf r.bucket (hash r) (granted r)) h.2
    exact ⟨hbuckets.trans (store_buckets_of_ne h.1 _ _), hcalls.trans (store_calls_of_ne h.1 _ _)⟩

/-- A bucket that stands once in the requests is stored as if it were the only one. -/
theorem storeAll_of_mem {requests : List BucketRequest} (hnodup : (requests.map (·.bucket)).Nodup)
    {r : BucketRequest} (hr : r ∈ requests) :
    (storeAll hash granted conf s requests).buckets r.bucket =
        (s.store conf r.bucket (hash r) (granted r)).buckets r.bucket ∧
      (storeAll hash granted conf s requests).calls r.bucket =
        (s.store conf r.bucket (hash r) (granted r)).calls r.bucket := by
  induction requests generalizing s with
  | nil => cases hr
  | cons r' rs ih =>
    rw [List.map_cons, List.nodup_cons] at hnodup
    rcases List.mem_cons.1 hr with rfl | hr
    · exact storeAll_of_notMem hash granted conf (s.store conf r.bucket (hash r) (granted r)) hnodup.1
    · have hne : r.bucket ≠ r'.bucket := fun heq => hnodup.1 (heq ▸ List.mem_map_of_mem hr)
      obtain ⟨hbuckets, hcalls⟩ := ih (s.store conf r'.bucket (hash r') (granted r')) hnodup.2 hr
      refine ⟨hbuckets.trans ?_, hcalls.trans ?_⟩
      · rw [store_buckets_self, store_buckets_self]
        rfl
      · rw [store_calls_self, store_calls_self, store_calls_of_ne hne]

end Fold

/-- What is left in a bucket, and the reading. -/
def leftHash (conf : String → BucketConfig) (s : RateLimiter) (nowMs : ℤ) (requests : List BucketRequest)
    (r : BucketRequest) : BucketHash :=
  ⟨s.available conf nowMs r.bucket - s.charge conf nowMs requests r, nowMs⟩

/-- Requests of one bucket twice change nothing; others store each bucket once, and succeed where every bucket has
enough. -/
theorem enforceAll_cases (conf : String → BucketConfig) (s : RateLimiter) (requests : List BucketRequest) (nowMs : ℤ) :
    (∃ e, s.enforceAll conf requests nowMs = (s, .error e)) ∨
      (requests.map (·.bucket)).Nodup ∧ ∃ result, s.enforceAll conf requests nowMs =
        (storeAll (s.leftHash conf nowMs requests) (s.charge conf nowMs requests) conf s requests, result) ∧
        if s.allAllowed conf nowMs requests then ∃ decisions, result = .ok decisions else ∃ e, result = .error e := by
  unfold enforceAll
  split
  · exact .inl ⟨_, rfl⟩
  · next hdup =>
    refine .inr ⟨(nodup_of_duplicate_eq_none hdup).1, ?_⟩
    cases requests with
    | nil => exact ⟨_, rfl, _, rfl⟩
    | cons r rs =>
      simp only [tokenBucketAllLua, List.map_cons, List.zip_cons_cons]
      split
      · exact ⟨_, rfl, _, rfl⟩
      · exact ⟨_, rfl, _, rfl⟩

/-- The bucket is charged this cost: it has so much less, and the call is the last one. -/
def Charged (conf : String → BucketConfig) (s s' : RateLimiter) (nowMs : ℤ) (bucket : String) (cost : ℚ) : Prop :=
  s'.data bucket = some ⟨s.available conf nowMs bucket - cost, nowMs⟩ ∧
    s'.calls bucket = ⟨nowMs, cost⟩ :: s.calls bucket

theorem charged_of_enforceAll (conf : String → BucketConfig) (s : RateLimiter) (nowMs : ℤ)
    {requests : List BucketRequest} (hnodup : (requests.map (·.bucket)).Nodup)
    {r : BucketRequest} (hr : r ∈ requests) :
    s.Charged conf (storeAll (s.leftHash conf nowMs requests) (s.charge conf nowMs requests) conf s requests) nowMs
      r.bucket (s.charge conf nowMs requests r) := by
  obtain ⟨hbuckets, hcalls⟩ :=
    storeAll_of_mem (s.leftHash conf nowMs requests) (s.charge conf nowMs requests) conf s hnodup hr
  rw [store_buckets_self] at hbuckets
  rw [store_calls_self] at hcalls
  refine ⟨?_, hcalls⟩
  unfold data
  rw [storeAll_redisNow]
  refine get_of_lt hbuckets ?_
  have httl : 1 ≤ (conf r.bucket).ttlSeconds := le_max_left _ _
  omega

/-- Either every bucket is charged its cost, or none is charged anything. -/
theorem enforceAll_all_or_none (conf : String → BucketConfig) (s : RateLimiter) (requests : List BucketRequest)
    (nowMs : ℤ) :
    (∃ decisions, (s.enforceAll conf requests nowMs).2 = .ok decisions ∧
      ∀ r ∈ requests, s.Charged conf (s.enforceAll conf requests nowMs).1 nowMs r.bucket r.cost) ∨
    ((∃ e, (s.enforceAll conf requests nowMs).2 = .error e) ∧
      ((s.enforceAll conf requests nowMs).1 = s ∨
        ∀ r ∈ requests, s.Charged conf (s.enforceAll conf requests nowMs).1 nowMs r.bucket 0)) := by
  rcases enforceAll_cases conf s requests nowMs with ⟨e, heq⟩ | ⟨hnodup, result, heq, hresult⟩
  · rw [heq]
    exact .inr ⟨⟨e, rfl⟩, .inl rfl⟩
  · rw [heq]
    have hcharged (r : BucketRequest) (hr : r ∈ requests) :=
      charged_of_enforceAll conf s nowMs hnodup hr
    split at hresult
    · next hall =>
      obtain ⟨decisions, rfl⟩ := hresult
      have hcharge (r : BucketRequest) : s.charge conf nowMs requests r = r.cost := if_pos hall
      exact .inl ⟨decisions, rfl, fun r hr => hcharge r ▸ hcharged r hr⟩
    · next hall =>
      have hcharge (r : BucketRequest) : s.charge conf nowMs requests r = 0 := if_neg hall
      exact .inr ⟨hresult, .inr fun r hr => hcharge r ▸ hcharged r hr⟩

/-- For one bucket, `enforceAll` is `enforce`. -/
theorem enforceAll_singleton (conf : String → BucketConfig) (s : RateLimiter) (request : BucketRequest) (nowMs : ℤ) :
    s.enforceAll conf [request] nowMs =
      ((s.enforce conf request nowMs).1, (s.enforce conf request nowMs).2.map fun decision => [decision]) := by
  by_cases hle : request.cost ≤ s.available conf nowMs request.bucket
  · have hle' : request.cost ≤ refill (conf request.bucket) nowMs (s.data request.bucket) := hle
    simp [enforceAll, duplicate, tokenBucketAllLua, allAllowed, charge, retryAfterMs, outcome, enforce, check,
      tokenBucketLua, hle', available, Except.map]
  · have hle' : ¬request.cost ≤ refill (conf request.bucket) nowMs (s.data request.bucket) := hle
    have hwait : ⌈(request.cost - refill (conf request.bucket) nowMs (s.data request.bucket)) /
        (conf request.bucket).refillRatePerMs⌉ ≠ 0 :=
      (Int.ceil_pos.2 (div_pos (sub_pos.2 (not_le.1 hle')) (conf request.bucket).refillRatePerMs_pos)).ne'
    simp [enforceAll, duplicate, tokenBucketAllLua, allAllowed, charge, retryAfterMs, outcome, enforce, check,
      tokenBucketLua, hle', available, Except.map, worst, rejection, hwait]

/-! ## Runs -/

theorem BucketInv.initial (conf : String → BucketConfig) (redisNow : ℤ) (bucket : String) :
    (initial redisNow).BucketInv conf bucket where
  fresh _ := rfl
  last _ _ h := nomatch h
  tokens _ _ h := nomatch h
  since _ _ h := nomatch h
  bounded _ h hne := absurd (List.infix_nil.1 h) hne

/-- One step keeps the invariant of every bucket. -/
theorem BucketInv.step (hi : ∀ bucket, s.BucketInv conf bucket) {a : Act} (hok : s.ForwardAct conf a)
    (hs : RateLimiter.step conf s a = some s') (bucket : String) : s'.BucketInv conf bucket := by
  cases a with
  | tick ms =>
    cases hs
    exact (hi bucket).congr rfl rfl
  | check request nowMs =>
    cases hs
    obtain ⟨hcost, hforward⟩ := hok
    by_cases hb : bucket = request.bucket
    · subst hb
      unfold RateLimiter.check tokenBucketLua
      by_cases hle : request.cost ≤ s.available conf nowMs request.bucket
      · have hle' : request.cost ≤ refill (conf request.bucket) nowMs (s.data request.bucket) := hle
        simp only [hle', if_true]
        exact (hi request.bucket).store hforward hcost hle
      · have hle' : ¬request.cost ≤ refill (conf request.bucket) nowMs (s.data request.bucket) := hle
        have hstore := (hi request.bucket).store hforward (le_refl 0) (hi request.bucket).available_nonneg
        rw [sub_zero] at hstore
        simp only [hle', if_false, Bool.false_eq_true]
        exact hstore
    · exact (hi bucket).congr (store_buckets_of_ne hb _ _) (store_calls_of_ne hb _ _)
  | enforceAll requests nowMs =>
    cases hs
    rcases enforceAll_cases conf s requests nowMs with ⟨e, heq⟩ | ⟨hnodup, result, heq, -⟩
    · rw [heq]
      exact hi bucket
    · rw [heq]
      by_cases hmem : bucket ∈ requests.map (·.bucket)
      · obtain ⟨r, hr, rfl⟩ := List.mem_map.1 hmem
        obtain ⟨hcost, hforward⟩ := hok r hr
        obtain ⟨hbuckets, hcalls⟩ :=
          storeAll_of_mem (s.leftHash conf nowMs requests) (s.charge conf nowMs requests) conf s hnodup hr
        refine BucketInv.congr ?_ hbuckets hcalls
        have hcharge : 0 ≤ s.charge conf nowMs requests r ∧
            s.charge conf nowMs requests r ≤ s.available conf nowMs r.bucket := by
          unfold charge
          split
          · next hall => exact ⟨hcost, of_decide_eq_true (List.all_eq_true.1 hall r hr)⟩
          · exact ⟨le_refl 0, (hi r.bucket).available_nonneg⟩
        exact (hi r.bucket).store hforward hcharge.1 hcharge.2
      · obtain ⟨hbuckets, hcalls⟩ :=
          storeAll_of_notMem (s.leftHash conf nowMs requests) (s.charge conf nowMs requests) conf s hmem
        exact (hi bucket).congr hbuckets hcalls
  | peek bucket' nowMs =>
    cases hs
    exact (hi bucket).congr rfl rfl

/-- In every run in which costs are not negative and no reading is behind its bucket, the tokens of a bucket are within
its limit, a stretch of its calls is granted the limit and what the span of their readings refills at most, and the
three entry points agree. -/
theorem granted_le_of_run (conf : String → BucketConfig) {redisNow : ℤ}
    (hr : Run (step conf) (ForwardAct conf) (initial redisNow) s) :
    (∀ bucket hash, s.data bucket = some hash → 0 ≤ hash.tokens ∧ hash.tokens ≤ (conf bucket).limit) ∧
    (∀ bucket stretch, stretch <:+: s.calls bucket → stretch ≠ [] →
      ∀ lo hi, (∀ c ∈ stretch, lo ≤ c.nowMs ∧ c.nowMs ≤ hi) →
      grantedBy stretch ≤ (conf bucket).limit + (hi - lo : ℤ) * (conf bucket).refillRatePerMs) ∧
    (∀ requests nowMs, (∃ decisions, (s.enforceAll conf requests nowMs).2 = .ok decisions ∧
      ∀ r ∈ requests, s.Charged conf (s.enforceAll conf requests nowMs).1 nowMs r.bucket r.cost) ∨
      ((∃ e, (s.enforceAll conf requests nowMs).2 = .error e) ∧
        ((s.enforceAll conf requests nowMs).1 = s ∨
          ∀ r ∈ requests, s.Charged conf (s.enforceAll conf requests nowMs).1 nowMs r.bucket 0))) ∧
    (∀ request nowMs, s.enforceAll conf [request] nowMs =
      ((s.enforce conf request nowMs).1, (s.enforce conf request nowMs).2.map fun decision => [decision])) ∧
    (∀ bucket nowMs, step conf s (.peek bucket nowMs) = some s) := by
  have hinv : ∀ bucket, s.BucketInv conf bucket :=
    hr.invariant (I := fun s => ∀ bucket, BucketInv conf s bucket) (fun b => .initial conf redisNow b)
      fun _ _ _ hi hok hs => BucketInv.step hi hok hs
  refine ⟨fun bucket hash hdata => ?_, fun bucket => (hinv bucket).bounded, fun requests nowMs =>
    enforceAll_all_or_none conf s requests nowMs, fun request nowMs => enforceAll_singleton conf s request nowMs,
    fun _ _ => rfl⟩
  obtain ⟨expiry, hstored, -⟩ := get_eq_some.1 hdata
  exact (hinv bucket).tokens hash expiry hstored

/-! Two instances whose clocks are ten seconds apart. -/

def tenPerTenSeconds (_ : String) : BucketConfig := ⟨10, 10, by decide +kernel, by decide⟩

def clocksApart : List Act :=
  [.check ⟨"ip", 10⟩ 10000, .check ⟨"ip", 1⟩ 0, .check ⟨"ip", 10⟩ 10000, .check ⟨"ip", 1⟩ 0, .check ⟨"ip", 10⟩ 10000]

/-- Readings that go back and forth are granted thirty in a span that refills ten. -/
theorem not_granted_le : ∃ s, Run (step tenPerTenSeconds) (fun _ _ => True) (initial 0) s ∧
    ∃ stretch, stretch <:+: s.calls "ip" ∧ stretch ≠ [] ∧ (∀ c ∈ stretch, 0 ≤ c.nowMs ∧ c.nowMs ≤ 10000) ∧
      (tenPerTenSeconds "ip").limit + (10000 - 0 : ℤ) * (tenPerTenSeconds "ip").refillRatePerMs <
        grantedBy stretch := by
  obtain ⟨s, hrun, hs⟩ := exists_run_of_exec (step tenPerTenSeconds) (initial 0) clocksApart
    (fun s => decide (s.calls "ip" ≠ [] ∧ (∀ c ∈ s.calls "ip", 0 ≤ c.nowMs ∧ c.nowMs ≤ 10000) ∧
      (tenPerTenSeconds "ip").limit + (10000 - 0 : ℤ) * (tenPerTenSeconds "ip").refillRatePerMs <
        grantedBy (s.calls "ip"))) (by decide +kernel)
  exact ⟨s, hrun, s.calls "ip", List.infix_rfl, of_decide_eq_true hs⟩

def clocksInStep : List Act :=
  [.check ⟨"ip", 10⟩ 0, .enforceAll [⟨"ip", 1⟩, ⟨"user", 1⟩] 500, .peek "ip" 700, .tick 20000, .check ⟨"ip", 10⟩ 10000]

theorem granted_le_of_clocksInStep : ∃ s : RateLimiter, grantedBy (s.calls "ip") = 20 ∧
    ((∀ bucket hash, s.data bucket = some hash → 0 ≤ hash.tokens ∧ hash.tokens ≤ (tenPerTenSeconds bucket).limit) ∧
    (∀ bucket stretch, stretch <:+: s.calls bucket → stretch ≠ [] →
      ∀ lo hi, (∀ c ∈ stretch, lo ≤ c.nowMs ∧ c.nowMs ≤ hi) →
      grantedBy stretch ≤ (tenPerTenSeconds bucket).limit + (hi - lo : ℤ) * (tenPerTenSeconds bucket).refillRatePerMs) ∧
    (∀ requests nowMs, (∃ decisions, (s.enforceAll tenPerTenSeconds requests nowMs).2 = .ok decisions ∧
      ∀ r ∈ requests, s.Charged tenPerTenSeconds (s.enforceAll tenPerTenSeconds requests nowMs).1 nowMs r.bucket
        r.cost) ∨
      ((∃ e, (s.enforceAll tenPerTenSeconds requests nowMs).2 = .error e) ∧
        ((s.enforceAll tenPerTenSeconds requests nowMs).1 = s ∨ ∀ r ∈ requests,
          s.Charged tenPerTenSeconds (s.enforceAll tenPerTenSeconds requests nowMs).1 nowMs r.bucket 0))) ∧
    (∀ request nowMs, s.enforceAll tenPerTenSeconds [request] nowMs =
      ((s.enforce tenPerTenSeconds request nowMs).1,
        (s.enforce tenPerTenSeconds request nowMs).2.map fun decision => [decision])) ∧
    (∀ bucket nowMs, step tenPerTenSeconds s (.peek bucket nowMs) = some s)) := by
  have hok (s : RateLimiter) (a : Act) (h : decide (s.ForwardAct tenPerTenSeconds a) = true) :
      s.ForwardAct tenPerTenSeconds a := of_decide_eq_true h
  obtain ⟨s, hrun, hs⟩ := exists_run_of_execOk (step tenPerTenSeconds) _ (initial 0) clocksInStep
    (fun s => decide (grantedBy (s.calls "ip") = 20)) hok (by decide +kernel) (by decide +kernel)
  exact ⟨s, of_decide_eq_true hs, granted_le_of_run tenPerTenSeconds hrun⟩

end RateLimiter

end Kumiko
