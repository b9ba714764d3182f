import Mathlib.Data.List.Induction
import Kumiko.Library.Run
import Kumiko.Library.History

/-!
# The idempotency guard

`pipeline/idempotency.ts`: one key in Redis, and any number of requests that check it, store a result under it
or release it. A claim is a marker with an id of its own, a result is JSON text, and both expire. `Lawful` says
what may happen to the key, and every run is lawful (`guard_of_run`): the compare-and-set lets only the owner of
the claim through, and no JSON text is taken for a marker.
-/

namespace Kumiko

open Transition History

/-! ## What is stored -/

/-- The text of a finite number. -/
structure NumberText where
  head : Char
  tail : List Char
  head_ok : head = '-' ∨ head.isDigit = true

/-- A result, as JSON sees it. -/
inductive JsonTree where
  | null
  | bool (b : Bool)
  | number (text : NumberText)
  | text (s : String)
  | array (items : List JsonTree)
  | object (fields : List (String × JsonTree))

/-- A character of a JSON string. -/
def escapeChar (c : Char) : List Char :=
  if c = '"' then ['\\', '"']
  else if c = '\\' then ['\\', '\\']
  else if c = '\n' then ['\\', 'n']
  else if c = '\r' then ['\\', 'r']
  else if c = '\t' then ['\\', 't']
  else if c.toNat = 8 then ['\\', 'b']
  else if c.toNat = 12 then ['\\', 'f']
  else if c.toNat < 32 then
    ['\\', 'u', '0', '0', Nat.digitChar (c.toNat / 16), Nat.digitChar (c.toNat % 16)]
  else [c]

/-- A JSON string. -/
def quoteText (s : String) : List Char := '"' :: s.toList.flatMap escapeChar ++ ['"']

mutual

/-- Reference: `JSON.stringify`. -/
def JsonTree.stringify : JsonTree → List Char
  | .null => "null".toList
  | .bool true => "true".toList
  | .bool false => "false".toList
  | .number n => n.head :: n.tail
  | .text s => quoteText s
  | .array items => '[' :: JsonTree.stringifyItems items
  | .object fields => '\x7b' :: JsonTree.stringifyFields fields

/-- The items of an array, and its end. -/
def JsonTree.stringifyItems : List JsonTree → List Char
  | [] => [']']
  | [item] => JsonTree.stringify item ++ [']']
  | item :: items => JsonTree.stringify item ++ ',' :: JsonTree.stringifyItems items

/-- The fields of an object, and its end. -/
def JsonTree.stringifyFields : List (String × JsonTree) → List Char
  | [] => ['\x7d']
  | [field] => quoteText field.1 ++ ':' :: JsonTree.stringify field.2 ++ ['\x7d']
  | field :: fields => quoteText field.1 ++ ':' :: JsonTree.stringify field.2 ++ ',' ::
      JsonTree.stringifyFields fields

end

/-- Reference: `PENDING_PREFIX`. -/
def pendingPrefix : String := "__pending__:"

/-- Reference: `value.startsWith(PENDING_PREFIX)`. -/
def isPending (value : String) : Bool := pendingPrefix.toList.isPrefixOf value.toList

/-- What Redis gets of a result. One that has no JSON text is sent as an empty argument. -/
def storedText (result : Option JsonTree) : String :=
  match result with
  | none => ""
  | some tree => .ofList tree.stringify

theorem isPending_token (id : String) : isPending (pendingPrefix ++ id) = true := by
  simp [isPending, String.toList_append]

theorem stringify_head (tree : JsonTree) :
    ∃ c rest, tree.stringify = c :: rest ∧ (c.isDigit = true ∨ c ∈ ['-', 'n', 't', 'f', '"', '[', '{']) := by
  cases tree with
  | null => exact ⟨_, _, by simp only [JsonTree.stringify]; rfl, by decide⟩
  | bool b => cases b <;> exact ⟨_, _, by simp only [JsonTree.stringify]; rfl, by decide⟩
  | number n =>
    refine ⟨_, _, by rw [JsonTree.stringify], ?_⟩
    rcases n.head_ok with hminus | hdigit
    · rw [hminus]
      decide
    · exact .inl hdigit
  | text s => exact ⟨_, _, by rw [JsonTree.stringify, quoteText, List.cons_append], by decide⟩
  | array items => exact ⟨_, _, by rw [JsonTree.stringify], by decide⟩
  | object fields => exact ⟨_, _, by rw [JsonTree.stringify], by decide⟩

/-- No result is taken for a marker. -/
theorem isPending_storedText (result : Option JsonTree) : isPending (storedText result) = false := by
  cases result with
  | none => decide
  | some tree =>
    obtain ⟨c, rest, hlist, hhead⟩ := stringify_head tree
    have hne : c ≠ '_' := by
      rintro rfl
      revert hhead
      decide
    have hprefix : pendingPrefix.toList = '_' :: "_pending__:".toList := by decide
    rw [isPending, storedText, String.toList_ofList, hlist, hprefix, List.isPrefixOf, Bool.and_eq_false_iff]
    exact .inl (by simpa using hne.symm)

/-! ## Requests -/

/-- Where a request is: in `check`, before one of its requests to Redis, or past it. -/
inductive RequestPhase where
  | idle
  | tryAcquire
  | poll
  | reclaim
  | finalGet
  | lastResort
  | acquired (token : String)
  | cached (result : String)
  | failed
  deriving DecidableEq

/-- What has happened to the key. -/
inductive GuardEvent where
  | claimed (request : ℕ) (token : String)
  | waited (request : ℕ)
  | answered (request : ℕ) (text : String)
  | stored (request : ℕ) (token : String) (result : Option JsonTree)
  | released (request : ℕ) (token : String)
  | expired

/-- The key, the requests, the tokens generated so far, and the record of what happened. -/
structure GuardedKey where
  value : Option String
  requests : ℕ → RequestPhase
  issued : List String
  history : List GuardEvent

/-- A step of a request, or the end of the key's time to live. -/
inductive GuardAct where
  | check (request : ℕ)
  /-- `SET NX` with a marker of this id. -/
  | setNx (request : ℕ) (id : String)
  | get (request : ℕ)
  /-- The time the check may wait is over. -/
  | deadline (request : ℕ)
  | store (request : ℕ) (result : Option JsonTree)
  | release (request : ℕ)
  | expire
  /-- The request's process ends, or loses its connection. -/
  | crash (request : ℕ)

namespace GuardedKey

def initial : GuardedKey := ⟨none, fun _ => .idle, [], []⟩

/-- The request goes on, and something happens to the key. -/
def goto (s : GuardedKey) (request : ℕ) (phase : RequestPhase) (events : List GuardEvent) : GuardedKey :=
  { s with requests := Function.update s.requests request phase, history := s.history ++ events }

/-- A claim attempt. Reference: `tryAcquire`. -/
def setNx (s : GuardedKey) (request : ℕ) (token : String) (lost : RequestPhase) : GuardedKey :=
  match s.value with
  | none =>
    { s.goto request (.acquired token) [.claimed request token] with
      value := some token, issued := token :: s.issued }
  | some _ => { s.goto request lost [] with issued := token :: s.issued }

/-- A look at the key, which is absent, pending or a result. -/
def look (s : GuardedKey) (request : ℕ) (absent pending : RequestPhase) : GuardedKey :=
  match s.value with
  | none => s.goto request absent []
  | some value =>
    if isPending value then s.goto request pending [.waited request]
    else s.goto request (.cached value) [.answered request value]

/-- One step. -/
def step (s : GuardedKey) : GuardAct → Option GuardedKey
  | .check request =>
    match s.requests request with
    | .idle => some (s.goto request .tryAcquire [])
    | _ => none
  | .setNx request id =>
    match s.requests request with
    | .tryAcquire | .reclaim => some (s.setNx request (pendingPrefix ++ id) .poll)
    | .lastResort => some (s.setNx request (pendingPrefix ++ id) .failed)
    | _ => none
  | .get request =>
    match s.requests request with
    | .poll => some (s.look request .reclaim .poll)
    | .finalGet => some (s.look request .lastResort .lastResort)
    | _ => none
  | .deadline request =>
    match s.requests request with
    | .poll => some (s.goto request .finalGet [])
    | _ => none
  | .store request result =>
    match s.requests request with
    | .acquired token =>
      if s.value = some token then
        some { s.goto request (.acquired token) [.stored request token result] with
          value := some (storedText result) }
      else some s
    | _ => none
  | .release request =>
    match s.requests request with
    | .acquired token =>
      if s.value = some token then
        some { s.goto request (.acquired token) [.released request token] with value := none }
      else some s
    | _ => none
  | .expire =>
    match s.value with
    | none => none
    | some _ => some { s with value := none, history := s.history ++ [.expired] }
  | .crash request => some (s.goto request .failed [])

/-- `generateId` gives a new id each time. -/
def FreshIds (s : GuardedKey) : GuardAct → Prop
  | .setNx _ id => pendingPrefix ++ id ∉ s.issued
  | _ => True

end GuardedKey

/-! ## What the key stands for -/

/-- The key as its requests understand it. -/
inductive GuardRecord where
  | free
  | claim (request : ℕ) (token : String)
  | result (request : ℕ) (result : Option JsonTree)

namespace GuardRecord

/-- The value in Redis. -/
def value : GuardRecord → Option String
  | .free => none
  | .claim _ token => some token
  | .result _ answer => some (storedText answer)

/-- What an event makes of the record. -/
def after (record : GuardRecord) : GuardEvent → GuardRecord
  | .claimed request token => .claim request token
  | .waited _ | .answered _ _ => record
  | .stored request _ answer => .result request answer
  | .released _ _ | .expired => .free

end GuardRecord

/-- The record a history leaves. -/
def recordAfter (history : List GuardEvent) : GuardRecord := history.foldl .after .free

/-- What may happen in which record: a claim is granted where there is none, and the one whose claim it is stores
or releases; a check waits for a claim, and is answered with a result. -/
def Lawful (before : List GuardEvent) : GuardEvent → Prop
  | .claimed _ token => recordAfter before = .free ∧ ∀ request, .claimed request token ∉ before
  | .waited _ => ∃ request token, recordAfter before = .claim request token
  | .answered _ text => ∃ request result, recordAfter before = .result request result ∧ text = storedText result
  | .stored request token _ | .released request token => recordAfter before = .claim request token
  | .expired => recordAfter before ≠ .free

/-- The event ends the claim. -/
def GuardEvent.ends (request : ℕ) (token : String) : GuardEvent → Prop
  | .stored request' token' _ | .released request' token' => request' = request ∧ token' = token
  | .expired => True
  | _ => False

/-- A claim that was granted and has not ended. -/
def Live (history : List GuardEvent) (request : ℕ) (token : String) : Prop :=
  ∃ before after, history = before ++ .claimed request token :: after ∧ ∀ e ∈ after, ¬ e.ends request token

/-- What every run of the guard keeps. -/
structure Guarded (s : GuardedKey) : Prop where
  lawful : Along Lawful s.history
  /-- Redis holds what the record stands for. -/
  value : s.value = (recordAfter s.history).value
  /-- A request that was granted a claim, or an answer, has it from the history. -/
  acquired : ∀ request token, s.requests request = .acquired token → .claimed request token ∈ s.history
  cached : ∀ request text, s.requests request = .cached text → .answered request text ∈ s.history
  /-- Two claims that have not ended are one. -/
  live : ∀ request token request' token', Live s.history request token → Live s.history request' token' →
    request = request' ∧ token = token'

/-! ## Lawful histories -/

section
variable {h : List GuardEvent} {e : GuardEvent} {request request' : ℕ} {token : String}

@[simp] theorem recordAfter_concat : recordAfter (h ++ [e]) = (recordAfter h).after e := List.foldl_concat ..

/-- A token is claimed once. -/
theorem claimed_unique (hl : Along Lawful h) (h₁ : .claimed request token ∈ h)
    (h₂ : .claimed request' token ∈ h) : request = request' := by
  induction h using List.reverseRecOn with
  | nil => cases h₁
  | append_singleton h e ih =>
    obtain ⟨hl, he⟩ := along_concat.1 hl
    rcases List.mem_append.1 h₁ with h₁ | h₁ <;> rcases List.mem_append.1 h₂ with h₂ | h₂
    · exact ih hl h₁ h₂
    · rw [← List.mem_singleton.1 h₂] at he
      exact absurd h₁ (he.2 request)
    · rw [← List.mem_singleton.1 h₁] at he
      exact absurd h₂ (he.2 request')
    · have hsame := (List.mem_singleton.1 h₁).trans (List.mem_singleton.1 h₂).symm
      cases hsame
      rfl

/-- A claim on the record was granted. -/
theorem claimed_of_record (hl : Along Lawful h) (hr : recordAfter h = .claim request token) :
    .claimed request token ∈ h := by
  induction h using List.reverseRecOn with
  | nil => cases hr
  | append_singleton h e ih =>
    have hl' := (along_concat.1 hl).1
    rw [recordAfter_concat] at hr
    cases e with
    | claimed =>
      cases hr
      exact List.mem_append_right _ (.head _)
    | waited | answered => exact List.mem_append_left _ (ih hl' hr)
    | stored | released | expired => cases hr

/-- A claim that has not ended is the one on the record. -/
theorem record_of_live (hl : Along Lawful h) (hlive : Live h request token) :
    recordAfter h = .claim request token := by
  obtain ⟨before, after, rfl, hends⟩ := hlive
  -- induction on what happened since the claim
  induction after using List.reverseRecOn with
  | nil => simp [GuardRecord.after]
  | append_singleton after e ih =>
    rw [show before ++ .claimed request token :: (after ++ [e]) =
      before ++ .claimed request token :: after ++ [e] by simp] at hl ⊢
    obtain ⟨hl', he⟩ := along_concat.1 hl
    have hbefore := ih (fun e' he' => hends e' (List.mem_append_left _ he')) hl'
    have hnot := hends e (List.mem_append_right _ (.head _))
    rw [recordAfter_concat, hbefore]
    cases e with
    | claimed =>
      rw [Lawful, hbefore] at he
      cases he.1
    | waited | answered => rfl
    | stored | released =>
      rw [Lawful, hbefore] at he
      cases he
      exact absurd ⟨rfl, rfl⟩ hnot
    | expired => exact absurd trivial hnot

end

/-! ## Every step is lawful -/

namespace GuardedKey

/-- What every run maintains. -/
structure GuardInv (s : GuardedKey) : Prop where
  lawful : Along Lawful s.history
  value : s.value = (recordAfter s.history).value
  acquired : ∀ request token, s.requests request = .acquired token → .claimed request token ∈ s.history
  cached : ∀ request text, s.requests request = .cached text → .answered request text ∈ s.history
  /-- The tokens claimed are markers that were generated. -/
  tokens : ∀ request token, .claimed request token ∈ s.history → token ∈ s.issued ∧ isPending token = true

section
variable {s s' : GuardedKey} {request : ℕ} {phase : RequestPhase} {events : List GuardEvent} {token : String}

theorem guardInv_initial : GuardInv initial :=
  ⟨along_nil, rfl, (fun _ _ h => nomatch h), (fun _ _ h => nomatch h), (fun _ _ h => nomatch h)⟩

/-- What a request got it keeps, and what it gets now is on the record. -/
theorem GuardInv.goto (h : GuardInv s) {v : Option String} {issued : List String}
    (hlawful : Along Lawful (s.history ++ events)) (hvalue : v = (recordAfter (s.history ++ events)).value)
    (hacquired : ∀ token, phase = .acquired token → .claimed request token ∈ s.history ++ events)
    (hcached : ∀ text, phase = .cached text → .answered request text ∈ s.history ++ events)
    (hissued : ∀ token ∈ s.issued, token ∈ issued)
    (htokens : ∀ request token, .claimed request token ∈ events → token ∈ issued ∧ isPending token = true) :
    GuardInv { s.goto request phase events with value := v, issued := issued } := by
  refine ⟨hlawful, hvalue, fun request' token hr => ?_, fun request' text hr => ?_, fun request' token hm => ?_⟩
  · rcases eq_or_ne request' request with rfl | hne
    · exact hacquired token (by simpa [GuardedKey.goto] using hr)
    · have hr : s.requests request' = .acquired token := by
        simpa [GuardedKey.goto, Function.update_of_ne hne] using hr
      exact List.mem_append_left _ (h.acquired request' token hr)
  · rcases eq_or_ne request' request with rfl | hne
    · exact hcached text (by simpa [GuardedKey.goto] using hr)
    · have hr : s.requests request' = .cached text := by
        simpa [GuardedKey.goto, Function.update_of_ne hne] using hr
      exact List.mem_append_left _ (h.cached request' text hr)
  · rcases List.mem_append.1 hm with hm | hm
    · exact (h.tokens request' token hm).imp (hissued token) id
    · exact htokens request' token hm

/-- A request that goes on without anything happening to the key. -/
theorem GuardInv.goto_quiet (h : GuardInv s) (ha : ∀ token, phase ≠ .acquired token)
    (hc : ∀ text, phase ≠ .cached text) (issued : List String) (hissued : ∀ token ∈ s.issued, token ∈ issued) :
    GuardInv { s.goto request phase [] with issued := issued } :=
  h.goto (v := s.value) (by simpa using h.lawful) (by simpa using h.value) (fun token hp => absurd hp (ha token))
    (fun text hp => absurd hp (hc text)) hissued fun _ _ hm => nomatch hm

/-- The value in Redis is a result, or the token of the claim on the record. -/
theorem GuardInv.claim_of_pending (h : GuardInv s) {value : String} (hv : s.value = some value)
    (hp : isPending value = true) : ∃ request, recordAfter s.history = .claim request value := by
  have hvalue := h.value
  rw [hv] at hvalue
  cases hr : recordAfter s.history with
  | free =>
    rw [hr] at hvalue
    cases hvalue
  | claim request token =>
    rw [hr] at hvalue
    obtain rfl : value = token := Option.some.inj hvalue
    exact ⟨request, rfl⟩
  | result request answer =>
    rw [hr] at hvalue
    obtain rfl : value = storedText answer := Option.some.inj hvalue
    rw [isPending_storedText] at hp
    cases hp

/-- A request whose token is in Redis owns the claim. -/
theorem GuardInv.owner (h : GuardInv s) (hr : s.requests request = .acquired token) (hv : s.value = some token) :
    recordAfter s.history = .claim request token := by
  have hclaimed := h.acquired request token hr
  obtain ⟨request', hrecord⟩ := h.claim_of_pending hv (h.tokens request token hclaimed).2
  rw [hrecord, claimed_unique h.lawful hclaimed (claimed_of_record h.lawful hrecord)]

/-- A claim attempt. -/
theorem GuardInv.setNx (h : GuardInv s) {id : String} (hfresh : pendingPrefix ++ id ∉ s.issued)
    (ha : ∀ token, phase ≠ .acquired token) (hc : ∀ text, phase ≠ .cached text) :
    GuardInv (s.setNx request (pendingPrefix ++ id) phase) := by
  unfold GuardedKey.setNx
  split
  · next hv =>
    have hfree : recordAfter s.history = .free := by
      have hvalue := h.value
      rw [hv] at hvalue
      cases hr : recordAfter s.history with
      | free => rfl
      | claim | result =>
        rw [hr] at hvalue
        cases hvalue
    refine h.goto ?_ ?_ (fun token hp => ?_) (fun text hp => by cases hp) (fun token hm => .tail _ hm)
      fun request' token hm => ?_
    · refine along_concat.2 ⟨h.lawful, hfree, fun request' hm => hfresh (h.tokens request' _ hm).1⟩
    · rw [recordAfter_concat]
      rfl
    · cases hp
      exact List.mem_append_right _ (.head _)
    · cases List.mem_singleton.1 hm
      exact ⟨.head _, isPending_token id⟩
  · exact h.goto_quiet ha hc _ fun token hm => .tail _ hm

/-- A look at the key. -/
theorem GuardInv.look (h : GuardInv s) {absent pending : RequestPhase} (ha : ∀ token, absent ≠ .acquired token)
    (hc : ∀ text, absent ≠ .cached text) (ha' : ∀ token, pending ≠ .acquired token)
    (hc' : ∀ text, pending ≠ .cached text) : GuardInv (s.look request absent pending) := by
  unfold GuardedKey.look
  split
  · exact h.goto_quiet ha hc s.issued fun _ hm => hm
  · next value hv =>
    split
    · next hp =>
      obtain ⟨request', hrecord⟩ := h.claim_of_pending hv hp
      refine h.goto (v := s.value) (along_concat.2 ⟨h.lawful, request', value, hrecord⟩) ?_
        (fun token hph => absurd hph (ha' token)) (fun text hph => absurd hph (hc' text)) (fun _ hm => hm)
        fun _ _ hm => by cases List.mem_singleton.1 hm
      rw [recordAfter_concat]
      exact h.value
    · next hp =>
      have hanswer : ∃ request' answer, recordAfter s.history = .result request' answer ∧
          value = storedText answer := by
        have hvalue := h.value
        rw [hv] at hvalue
        cases hr : recordAfter s.history with
        | free =>
          rw [hr] at hvalue
          cases hvalue
        | claim request' token =>
          rw [hr] at hvalue
          obtain rfl : value = token := Option.some.inj hvalue
          exact absurd (h.tokens request' value (claimed_of_record h.lawful hr)).2 hp
        | result request' answer =>
          rw [hr] at hvalue
          exact ⟨request', answer, rfl, Option.some.inj hvalue⟩
      refine h.goto (v := s.value) (along_concat.2 ⟨h.lawful, hanswer⟩) ?_ (fun token hph => by cases hph)
        (fun text hph => ?_) (fun _ hm => hm) fun _ _ hm => by cases List.mem_singleton.1 hm
      · rw [recordAfter_concat]
        exact h.value
      · cases hph
        exact List.mem_append_right _ (.head _)

/-- A store or a release by the owner of the claim. -/
theorem GuardInv.finish (h : GuardInv s) (hr : s.requests request = .acquired token) {e : GuardEvent}
    {value : Option String} (he : Lawful s.history e) (hvalue : value = ((recordAfter s.history).after e).value)
    (hclaimed : ∀ request' token', e ≠ .claimed request' token') :
    GuardInv { s.goto request (.acquired token) [e] with value := value } :=
  h.goto (along_concat.2 ⟨h.lawful, he⟩) (by rw [recordAfter_concat, hvalue])
    (fun token' hp => by cases hp; exact List.mem_append_left _ (h.acquired request token hr))
    (fun text hp => by cases hp) (fun _ hm => hm)
    fun request' token' hm => absurd (List.mem_singleton.1 hm).symm (hclaimed request' token')

/-- Every step keeps the invariant. -/
theorem GuardInv.step {a : GuardAct} (h : GuardInv s) (ha : s.FreshIds a) (hs : s.step a = some s') :
    GuardInv s' := by
  cases a with
  | check request =>
    simp only [GuardedKey.step] at hs
    split at hs
    · cases hs
      exact h.goto_quiet (by simp) (by simp) s.issued fun _ hm => hm
    · cases hs
  | setNx request id =>
    simp only [GuardedKey.step] at hs
    split at hs
    · cases hs
      exact h.setNx ha (by simp) (by simp)
    · cases hs
      exact h.setNx ha (by simp) (by simp)
    · cases hs
      exact h.setNx ha (by simp) (by simp)
    · cases hs
  | get request =>
    simp only [GuardedKey.step] at hs
    split at hs
    · cases hs
      exact h.look (by simp) (by simp) (by simp) (by simp)
    · cases hs
      exact h.look (by simp) (by simp) (by simp) (by simp)
    · cases hs
  | deadline request =>
    simp only [GuardedKey.step] at hs
    split at hs
    · cases hs
      exact h.goto_quiet (by simp) (by simp) s.issued fun _ hm => hm
    · cases hs
  | store | release =>
    simp only [GuardedKey.step] at hs
    split at hs
    · next token hr =>
      split at hs
      · next hv =>
        cases hs
        exact h.finish hr (h.owner hr hv) rfl (by simp)
      · cases hs
        exact h
    · cases hs
  | expire =>
    simp only [GuardedKey.step] at hs
    split at hs
    · cases hs
    · next value hv =>
      cases hs
      have hheld : recordAfter s.history ≠ .free := fun hfree => by
        have hvalue := h.value
        rw [hv, hfree] at hvalue
        cases hvalue
      refine ⟨along_concat.2 ⟨h.lawful, hheld⟩, ?_, fun request token hr => ?_, fun request text hr => ?_,
        fun request token hm => ?_⟩
      · rw [recordAfter_concat]
        rfl
      · exact List.mem_append_left _ (h.acquired request token hr)
      · exact List.mem_append_left _ (h.cached request text hr)
      · rcases List.mem_append.1 hm with hm | hm
        · exact h.tokens request token hm
        · cases List.mem_singleton.1 hm
  | crash request =>
    cases hs
    exact h.goto_quiet (by simp) (by simp) s.issued fun _ hm => hm

/-- In every run, only the owner of the claim stores or releases, a check is answered with the result that was
stored, told to wait for a claim or granted a claim of its own, and one claim at most is alive. -/
theorem guard_of_run (hr : Run step FreshIds initial s) : Guarded s := by
  have h : GuardInv s := hr.invariant guardInv_initial fun _ _ _ hi ha hs => hi.step ha hs
  refine ⟨h.lawful, h.value, h.acquired, h.cached, fun request token request' token' hlive hlive' => ?_⟩
  have hrecord := record_of_live h.lawful hlive
  rw [record_of_live h.lawful hlive'] at hrecord
  cases hrecord
  exact ⟨rfl, rfl⟩

end

/-! ## A claim that expires -/

/-- The first request's claim expires, the second one claims the key and stores its result, and the first one
comes too late with its own. -/
def reclaimed : List GuardAct :=
  [.check 0, .setNx 0 "a", .check 1, .setNx 1 "b", .get 1, .expire, .get 1, .setNx 1 "c",
    .store 1 (some (.bool true)), .store 0 (some (.bool false)), .release 0, .check 2, .setNx 2 "d", .get 2]

instance (s : GuardedKey) (a : GuardAct) : Decidable (s.FreshIds a) := by
  unfold FreshIds
  split <;> infer_instance

theorem guard_of_run_reclaimed : ∃ s, s.requests 2 = .cached "true" ∧ Guarded s := by
  obtain ⟨s, hr, hs⟩ := exists_run_of_execOk step (fun s a => decide (s.FreshIds a)) initial reclaimed
    (fun s => s.requests 2 == .cached "true") (fun _ _ => of_decide_eq_true) (by decide +kernel) (by decide +kernel)
  exact ⟨s, beq_iff_eq.1 hs, guard_of_run hr⟩

end GuardedKey

end Kumiko
