import Kumiko.Library.Run
import Mathlib.Data.List.Lookmap
import Mathlib.Tactic.ByContra

/-!
# The form controller

`renderer/src/headless/form/form-controller.ts`: a field is unchanged where its value and its baseline agree. A
submit sends a payload made from the snapshot it starts with and, on success, makes that snapshot the baseline.
What a baseline value rests on (`Backed`) is kept by every call (`BaselineInv`), and an edit made while a submit
is in flight stays (`form_keeps_unsent`).
-/

namespace Kumiko

open Transition

/-! ## Objects -/

/-- The entries of an object, in the order of its keys. -/
abbrev FormObject (V : Type) := List (String × V)

/-- What a submit sends: an object, or what a caller's transformer makes of the form otherwise. -/
inductive Payload (V : Type) where
  | object (entries : FormObject V)
  | value (v : V)

/-- What the controller reads of the values of fields. Values are equal if they are identical (`Object.is`). -/
class FormValue (V : Type) where
  undefined : V
  emptyString : V
  /-- Reference: `isCurrencyOnlyMoney`. -/
  isCurrencyOnlyMoney : V → Bool
  /-- `JSON.stringify([type, payload])`. -/
  stringify : String → Payload V → String

open FormValue

variable {V : Type} [FormValue V]

namespace FormObject

/-- `o[key]`. -/
def get (o : FormObject V) (key : String) : V := (o.lookup key).getD undefined

/-- `{ ...o, ...p }`. -/
def spread (o p : FormObject V) : FormObject V :=
  o.map (fun e => (e.1, (p.lookup e.1).getD e.2)) ++ p.filter fun e => (o.lookup e.1).isNone

/-- `{ ...o, [key]: value }`. -/
def set (o : FormObject V) (key : String) (value : V) : FormObject V := spread o [(key, value)]

end FormObject

variable [DecidableEq V]

/-- Reference: `valuesDiff`. -/
def valuesDiff (current initial : FormObject V) : FormObject V :=
  let keys := current.map (·.1) ++ (initial.map (·.1)).filter fun key => (current.lookup key).isNone
  (keys.filter fun key => current.get key ≠ initial.get key).map fun key => (key, current.get key)

/-- Reference: `stripUntouchedEmptyStrings`. -/
def stripUntouchedEmptyStrings (values initial : FormObject V) (forceIncludeEmpty : List String) : FormObject V :=
  values.filter fun e =>
    let untouchedEmptyString :=
      e.1 ∉ forceIncludeEmpty ∧ values.get e.1 = emptyString ∧ initial.get e.1 = emptyString
    !(untouchedEmptyString || (isCurrencyOnlyMoney (values.get e.1) && isCurrencyOnlyMoney (initial.get e.1)))

/-- Reference: `omitPayloadFields`. -/
def omitPayloadFields (payload : Payload V) (omitFields : List String) : Payload V :=
  match payload with
  | .object entries => .object (entries.filter fun e => e.1 ∉ omitFields)
  | .value v => .value v

/-! ## The controller -/

/-- Reference: `SubmitPayloadMode`. -/
inductive SubmitPayloadMode where
  | values
  | changes

/-- Reference: `SubmitConfig`. -/
structure SubmitConfig where
  type : String
  /-- There is a dispatcher. -/
  dispatcher : Bool := true
  payloadMode : SubmitPayloadMode := .values
  stripEmptySeeds : Bool := true
  omitFields : List String := []
  /-- The caller's transformer makes the payload. -/
  buildPayload : Bool := false

/-- How a write ends: with the server's answer, without one, or with what the dispatcher throws. -/
inductive WriteAnswer where
  | success
  /-- `isTransportFailure` says whether it is one; the server may name fields. -/
  | failed (isTransportFailure : Bool) (serverFields : List String)
  | thrown

/-- A write in flight, with the values of the snapshot it was made from. -/
structure Attempt (V : Type) where
  requestId : ℕ
  fingerprint : String
  payload : Payload V
  submittedValues : FormObject V

structure SubmittedWrite (V : Type) where
  requestId : ℕ
  type : String
  payload : Payload V
  answer : WriteAnswer

/-- What was said of the form so far. -/
structure FormHistory (V : Type) where
  /-- What was made the baseline at the start, by a seed or by a rebase: the values of some fields. -/
  marks : List (String → Option V)
  /-- What the last successful submit with the field in its payload sent for it. -/
  sent : String → Option V
  /-- The values of the snapshot of the last successful submit. -/
  lastSubmitted : Option (FormObject V)
  /-- The writes that have ended, the newest first. -/
  writes : List (SubmittedWrite V)

/-- The variables of a controller and its history; errors are the paths that have some. Reference:
`createFormController`. -/
structure FormController (V : Type) where
  values : FormObject V
  initial : FormObject V
  errors : List String
  forceIncludeEmpty : List String
  submitInFlight : Option (Attempt V)
  unansweredAttempt : Option (ℕ × String)
  /-- What `generateRequestId` gives next. -/
  nextRequestId : ℕ
  history : FormHistory V

namespace FormController

/-- Reference: `createFormController`. -/
def create (initial : FormObject V) : FormController V where
  values := initial
  initial := initial
  errors := []
  forceIncludeEmpty := []
  submitInFlight := none
  unansweredAttempt := none
  nextRequestId := 0
  history := ⟨[fun field => some (initial.get field)], fun _ => none, none, []⟩

/-- Values are made the baseline. -/
def mark (s : FormController V) (values : String → Option V) : FormController V :=
  { s with history := { s.history with marks := values :: s.history.marks } }

def setField (s : FormController V) (key : String) (value : V) : FormController V :=
  if s.values.get key = value then s else { s with values := s.values.set key value }

def setValues (s : FormController V) (part : FormObject V) : FormController V :=
  if part.all fun e => s.values.get e.1 = part.get e.1 then s else { s with values := s.values.spread part }

/-- Reference: `runSeedField`. -/
def seedField (s : FormController V) (field : String) (value : V) : FormController V :=
  if s.values.get field ≠ s.initial.get field then s
  else
    { s with initial := s.initial.set field value, values := s.values.set field value }.mark
      fun key => if key = field then some value else none

/-- Reference: `runRebase`. -/
def rebase (s : FormController V) : FormController V :=
  { s with initial := s.values, errors := [] }.mark fun key => some (s.values.get key)

/-- Reference: `runRebaseFields`. -/
def rebaseFields (s : FormController V) (fields : List String) : FormController V :=
  { s with initial := s.initial.spread (fields.map fun field => (field, s.values.get field)) }.mark
    fun key => if key ∈ fields then some (s.values.get key) else none

def reset (s : FormController V) : FormController V :=
  if (valuesDiff s.values s.initial).isEmpty ∧ s.errors.isEmpty then s
  else { s with values := s.initial, errors := [], forceIncludeEmpty := [] }

/-- The payload of a submit, or none where nothing has changed; `built` is what the caller's transformer makes of the
snapshot. Reference: `submit`. -/
def payloadOf (cfg : SubmitConfig) (s : FormController V) (built : Payload V) : Option (Payload V) :=
  if cfg.buildPayload then some built
  else match cfg.payloadMode with
    | .changes =>
      let changes := valuesDiff s.values s.initial
      if changes.isEmpty then none else some (.object changes)
    | .values =>
      if cfg.stripEmptySeeds then
        some (.object (stripUntouchedEmptyStrings s.values s.initial s.forceIncludeEmpty))
      else some (.object s.values)

/-- Reference: `runWrite`, up to the dispatcher. -/
def dispatch (cfg : SubmitConfig) (s : FormController V) (payload : Payload V) : FormController V :=
  let fingerprint := stringify cfg.type payload
  let requestId := match s.unansweredAttempt with
    | some (requestId, unanswered) => if unanswered = fingerprint then requestId else s.nextRequestId
    | none => s.nextRequestId
  { s with
    submitInFlight := some ⟨requestId, fingerprint, payload, s.values⟩
    nextRequestId := s.nextRequestId + 1 }

/-- A submit, up to the dispatcher; `valid` is what `runValidate` answers and `errors` what it leaves of the errors.
Reference: `submit`. -/
def submit (cfg : SubmitConfig) (s : FormController V) (valid : Bool) (errors : List String) (built : Payload V) :
    FormController V :=
  if s.submitInFlight.isSome then s
  else if !valid then { s with errors }
  else match payloadOf cfg s built with
    | none => { s with errors }
    | some payload =>
      if cfg.dispatcher then dispatch cfg { s with errors } (omitPayloadFields payload cfg.omitFields)
      else { s with errors }

/-- The keys that were sent empty on purpose. Reference: `runWrite`. -/
def rememberEmpty (forceIncludeEmpty : List String) : Payload V → List String
  | .object entries => entries.foldl
      (fun keys e => if e.2 = emptyString then e.1 :: keys else keys.filter (· ≠ e.1)) forceIncludeEmpty
  | .value _ => forceIncludeEmpty

/-- What a successful submit sent for each field, over what was sent before; values without a key send it as
undefined. -/
def sentBy (sent : String → Option V) (attempt : Attempt V) (field : String) : Option V :=
  match attempt.payload with
  | .object entries => (entries.lookup field).or
      (if (attempt.submittedValues.lookup field).isNone then some undefined else sent field)
  | .value _ => sent field

/-- What the controller makes of the end of a write. Reference: `runWrite`, behind the dispatcher. -/
def answer (cfg : SubmitConfig) (s : FormController V) (attempt : Attempt V) (result : WriteAnswer) :
    FormController V :=
  let ended := { s with
    submitInFlight := none
    history := { s.history with
      writes := ⟨attempt.requestId, cfg.type, attempt.payload, result⟩ :: s.history.writes } }
  match result with
  | .success =>
    { ended with
      initial := attempt.submittedValues
      errors := []
      forceIncludeEmpty := rememberEmpty s.forceIncludeEmpty attempt.payload
      unansweredAttempt := none
      history := { ended.history with
        sent := sentBy s.history.sent attempt
        lastSubmitted := some attempt.submittedValues } }
  | .failed isTransportFailure serverFields =>
    { ended with
      unansweredAttempt := if isTransportFailure then some (attempt.requestId, attempt.fingerprint) else none
      errors := if serverFields = [] then s.errors else serverFields }
  | .thrown => ended

/-- A call of the controller, or the end of the write in flight. -/
inductive Action (V : Type) where
  | setField (key : String) (value : V)
  | setValues (part : FormObject V)
  | seedField (field : String) (value : V)
  | rebase
  | rebaseFields (fields : List String)
  | reset
  /-- `validate`, `clearErrors` or `setErrors`. -/
  | setErrors (errors : List String)
  | submit (valid : Bool) (errors : List String) (built : Payload V)
  | answer (result : WriteAnswer)

def step (cfg : SubmitConfig) (s : FormController V) : Action V → Option (FormController V)
  | .setField key value => some (s.setField key value)
  | .setValues part => some (s.setValues part)
  | .seedField field value => some (s.seedField field value)
  | .rebase => some s.rebase
  | .rebaseFields fields => some (s.rebaseFields fields)
  | .reset => some s.reset
  | .setErrors errors => some { s with errors }
  | .submit valid errors built => some (submit cfg s valid errors built)
  | .answer result => s.submitInFlight.map fun attempt => answer cfg s attempt result

/-! ## What is kept -/

/-- The submit's configuration keeps this value of the field from the payload. -/
def Withheld (cfg : SubmitConfig) (field : String) (value : V) : Prop :=
  cfg.buildPayload = true ∨ field ∈ cfg.omitFields ∨
    cfg.payloadMode = .values ∧ cfg.stripEmptySeeds = true ∧ isCurrencyOnlyMoney value = true

/-- The value was the field's baseline at the start, seeded or rebased, or it is what was last sent for the field, or
it was withheld from the last successful submit. -/
def Backed (cfg : SubmitConfig) (h : FormHistory V) (field : String) (value : V) : Prop :=
  (∃ values ∈ h.marks, values field = some value) ∨ h.sent field = some value ∨
    Withheld cfg field value ∧ ∃ submitted, h.lastSubmitted = some submitted ∧ submitted.get field = value

/-- No answer came of the write. -/
def WriteAnswer.Unanswered (result : WriteAnswer) : Prop :=
  result = .thrown ∨ ∃ serverFields, result = .failed true serverFields

/-- A write may have the request id of an earlier one: they say the same, and the earlier one got no answer. -/
def MayRepeat (type : String) (payload : Payload V) (older : SubmittedWrite V) : Prop :=
  type = older.type ∧ stringify type payload = stringify older.type older.payload ∧
    WriteAnswer.Unanswered older.answer

/-- The call is no end of the write in flight. -/
def Action.KeepsFlight : Action V → Prop
  | .answer _ => False
  | _ => True

/-- The call moves the field's baseline; a seed for an edited field does nothing. -/
def Action.Rebases (field : String) (s : FormController V) : Action V → Prop
  | .seedField seeded _ => seeded = field ∧ s.values.get field = s.initial.get field
  | .rebase => True
  | .rebaseFields fields => field ∈ fields
  | _ => False

/-- What the controller keeps of what is typed into the form. -/
structure Kept (cfg : SubmitConfig) (s : FormController V) : Prop where
  /-- What is shown as unchanged is not unsent input. -/
  unchanged : ∀ field, s.values.get field = s.initial.get field → Backed cfg s.history field (s.values.get field)
  /-- What is set while a submit that starts here is in flight is still there after its success, and an edited field
  is dirty where it differs from what was submitted. -/
  inFlight : ∀ valid errors built s₁ attempt s₂ s₃, s.submitInFlight = none →
    step cfg s (.submit valid errors built) = some s₁ → s₁.submitInFlight = some attempt →
    Run (step cfg) (fun _ a => a.KeepsFlight) s₁ s₂ → step cfg s₂ (.answer .success) = some s₃ →
    s₃.values = s₂.values ∧
    ∀ field, Run (step cfg) (fun s a => a.KeepsFlight ∧ ¬ a.Rebases field s) s₁ s₂ →
      (s₃.values.get field ≠ s₃.initial.get field ↔ s₂.values.get field ≠ s.values.get field)
  /-- A request id is used again only for the same write without an answer. -/
  requestIds : (s.history.writes.Pairwise fun newer older => newer.requestId = older.requestId →
      MayRepeat newer.type newer.payload older) ∧
    ∀ attempt, s.submitInFlight = some attempt → ∀ older ∈ s.history.writes,
      attempt.requestId = older.requestId → MayRepeat cfg.type attempt.payload older

end FormController

/-! ## What objects hold -/

namespace FormObject

section
variable {V : Type} {o p : FormObject V} {key : String} {keys : List String}

theorem lookup_filter (keep : String → Bool) :
    (o.filter fun e => keep e.1).lookup key = if keep key then o.lookup key else none := by
  induction o with
  | nil => simp
  | cons e o ih =>
    obtain ⟨k, v⟩ := e
    rw [List.filter_cons, List.lookup_cons]
    by_cases hk : key = k
    · subst hk
      cases hkeep : keep key
      · simpa [hkeep] using ih
      · simp
    · have hne : (key == k) = false := by simpa using hk
      cases hkeep : keep k
      · simpa [hkeep, hne] using ih
      · simpa [hkeep, hne, List.lookup_cons] using ih

theorem lookup_map (f : String → V → V) :
    (o.map fun e => (e.1, f e.1 e.2)).lookup key = (o.lookup key).map (f key) := by
  induction o with
  | nil => rfl
  | cons e o ih =>
    obtain ⟨k, v⟩ := e
    rw [List.map_cons, List.lookup_cons, List.lookup_cons]
    by_cases hk : key = k
    · subst hk
      simp
    · have hne : (key == k) = false := by simpa using hk
      simpa [hne] using ih

theorem lookup_ofKeys (f : String → V) :
    (keys.map fun k => (k, f k)).lookup key = if key ∈ keys then some (f key) else none := by
  induction keys with
  | nil => rfl
  | cons k keys ih =>
    rw [List.map_cons, List.lookup_cons, ih]
    by_cases hk : key = k
    · subst hk
      simp
    · have hne : (key == k) = false := by simpa using hk
      simp [hne, hk]

/-- The entries of `p` stand over those of `o`. -/
theorem lookup_spread : (spread o p).lookup key = (p.lookup key).or (o.lookup key) := by
  rw [spread, List.lookup_append, lookup_map fun k v => (p.lookup k).getD v,
    lookup_filter fun k => (o.lookup k).isNone]
  cases ho : o.lookup key <;> cases hp : p.lookup key <;> rfl

theorem mem_map_fst_iff : key ∈ o.map (·.1) ↔ o.lookup key ≠ none := by
  induction o with
  | nil => simp
  | cons e o ih =>
    obtain ⟨k, v⟩ := e
    rw [List.map_cons, List.mem_cons, List.lookup_cons, ih]
    by_cases hk : key = k
    · subst hk
      simp
    · have hne : (key == k) = false := by simpa using hk
      simp [hne, hk]

end

section
variable {V : Type} [FormValue V] {o p : FormObject V} {key key' : String} {value : V} {keys : List String}

theorem get_spread : (spread o p).get key = ((p.lookup key).or (o.lookup key)).getD undefined := by
  rw [get, lookup_spread]

theorem get_set_self : (o.set key value).get key = value := by
  rw [set, get_spread, List.lookup_cons]
  simp

theorem get_set_of_ne (h : key ≠ key') : (o.set key' value).get key = o.get key := by
  rw [set, get_spread, List.lookup_cons]
  have hne : (key == key') = false := by simpa using h
  rw [hne]
  simp [get]

theorem get_spread_ofKeys (f : String → V) :
    (o.spread (keys.map fun k => (k, f k))).get key = if key ∈ keys then f key else o.get key := by
  rw [get_spread, lookup_ofKeys]
  split
  · rfl
  · rfl

end

end FormObject

/-- The changes are the fields whose value is another one than their baseline. -/
theorem lookup_valuesDiff {current initial : FormObject V} {key : String} :
    (valuesDiff current initial).lookup key =
      if current.get key ≠ initial.get key then some (current.get key) else none := by
  dsimp only [valuesDiff]
  rw [FormObject.lookup_ofKeys]
  by_cases h : current.get key = initial.get key
  · simp [h]
  · have hkey : key ∈ current.map (·.1) ++ (initial.map (·.1)).filter fun key => (current.lookup key).isNone := by
      rw [List.mem_append, List.mem_filter, FormObject.mem_map_fst_iff, FormObject.mem_map_fst_iff]
      cases hc : current.lookup key with
      | some v => exact .inl (by simp)
      | none =>
        refine .inr ⟨fun hi => h ?_, by simp⟩
        rw [FormObject.get, FormObject.get, hc, hi]
    rw [if_pos (List.mem_filter.2 ⟨hkey, by simpa using h⟩), if_pos h]

namespace FormController

/-! ## The baseline -/

section
variable {V : Type} [FormValue V] {cfg : SubmitConfig} {s s' : FormController V} {h : FormHistory V}
  {field : String} {value : V} {attempt : Attempt V}

/-- The success of this attempt backs the value it was made with. -/
def Covered (cfg : SubmitConfig) (h : FormHistory V) (attempt : Attempt V) (field : String) : Prop :=
  (∃ values ∈ h.marks, values field = some (attempt.submittedValues.get field)) ∨
    sentBy h.sent attempt field = some (attempt.submittedValues.get field) ∨
    Withheld cfg field (attempt.submittedValues.get field)

/-- Every baseline value is backed, also the ones that a success will put there. -/
structure BaselineInv (cfg : SubmitConfig) (s : FormController V) : Prop where
  backed : ∀ field, Backed cfg s.history field (s.initial.get field)
  covered : ∀ attempt, s.submitInFlight = some attempt → ∀ field, Covered cfg s.history attempt field

theorem Backed.mark (hb : Backed cfg s.history field value) (values : String → Option V) :
    Backed cfg (s.mark values).history field value := by
  obtain ⟨m, hm, hv⟩ | hsent | hwithheld := hb
  · exact .inl ⟨m, List.mem_cons_of_mem _ hm, hv⟩
  · exact .inr (.inl hsent)
  · exact .inr (.inr hwithheld)

theorem Backed.of_mark {values : String → Option V} (hv : values field = some value) :
    Backed cfg (s.mark values).history field value :=
  .inl ⟨values, List.mem_cons_self, hv⟩

theorem Covered.mark (hc : Covered cfg s.history attempt field) (values : String → Option V) :
    Covered cfg (s.mark values).history attempt field := by
  obtain ⟨m, hm, hv⟩ | hsent | hwithheld := hc
  · exact .inl ⟨m, List.mem_cons_of_mem _ hm, hv⟩
  · exact .inr (.inl hsent)
  · exact .inr (.inr hwithheld)

theorem sentBy_object {sent : String → Option V} {entries : FormObject V} (hp : attempt.payload = .object entries) :
    sentBy sent attempt field = (entries.lookup field).or
      (if (attempt.submittedValues.lookup field).isNone then some undefined else sent field) := by
  rw [sentBy, hp]

/-- A baseline value that the payload leaves out stays backed by what backed it. -/
theorem Covered.of_backed (hb : Backed cfg h field (attempt.submittedValues.get field))
    {entries : FormObject V} (hp : attempt.payload = .object entries) (hnone : entries.lookup field = none) :
    Covered cfg h attempt field := by
  obtain ⟨m, hm, hv⟩ | hsent | ⟨hwithheld, -⟩ := hb
  · exact .inl ⟨m, hm, hv⟩
  · refine .inr (.inl ?_)
    rw [sentBy_object hp, hnone, Option.none_or]
    split
    · next hkey =>
      rw [FormObject.get, Option.isNone_iff_eq_none.1 hkey]
      rfl
    · exact hsent
  · exact .inr (.inr hwithheld)

/-- A value that the payload carries is sent. -/
theorem Covered.of_sent {entries : FormObject V} (hp : attempt.payload = .object entries)
    (hsome : entries.lookup field = some (attempt.submittedValues.get field)) : Covered cfg h attempt field := by
  refine .inr (.inl ?_)
  rw [sentBy_object hp, hsome, Option.some_or]

/-- A payload that carries the values as they are sends each of them. -/
theorem Covered.of_values {entries : FormObject V} (hp : attempt.payload = .object entries)
    (hsame : entries.lookup field = attempt.submittedValues.lookup field) : Covered cfg h attempt field := by
  cases hv : attempt.submittedValues.lookup field with
  | some v =>
    refine .of_sent hp ?_
    rw [hsame, hv, FormObject.get, hv]
    rfl
  | none =>
    refine .inr (.inl ?_)
    rw [sentBy_object hp, hsame, hv, FormObject.get, hv]
    rfl

/-- The baseline, the history and the write in flight are as they were. -/
theorem BaselineInv.congr (hinv : BaselineInv cfg s) (hi : s'.initial = s.initial) (hh : s'.history = s.history)
    (hf : s'.submitInFlight = s.submitInFlight) : BaselineInv cfg s' :=
  ⟨fun field => by rw [hh, hi]; exact hinv.backed field, fun attempt ha field => by
    rw [hh]
    exact hinv.covered attempt (hf.symm.trans ha) field⟩

theorem BaselineInv.rebase (hinv : BaselineInv cfg s) : BaselineInv cfg s.rebase :=
  ⟨fun _ => .of_mark rfl, fun attempt ha key => (hinv.covered attempt ha key).mark _⟩

theorem BaselineInv.rebaseFields (hinv : BaselineInv cfg s) (fields : List String) :
    BaselineInv cfg (s.rebaseFields fields) := by
  refine ⟨fun key => ?_, fun attempt ha key => (hinv.covered attempt ha key).mark _⟩
  have hget : (s.rebaseFields fields).initial.get key = if key ∈ fields then s.values.get key else s.initial.get key :=
    FormObject.get_spread_ofKeys _
  rw [hget]
  split
  · next hkey => exact .of_mark (if_pos hkey)
  · exact (hinv.backed key).mark _

theorem baselineInv_create (cfg : SubmitConfig) (initial : FormObject V) : BaselineInv cfg (create initial) :=
  ⟨fun _ => .inl ⟨_, List.mem_singleton_self _, rfl⟩, fun _ hnone => by cases hnone⟩

end

section
variable {cfg : SubmitConfig} {s s' : FormController V} {field : String} {value : V} {attempt : Attempt V}
  {payload built : Payload V} {errors : List String} {valid : Bool}

/-- Of what is sent, the payload of a submit leaves out only what its baseline backs and what is withheld. -/
theorem covered_of_payloadOf (hinv : BaselineInv cfg s) (hpayload : payloadOf cfg s built = some payload)
    (hp : attempt.payload = omitPayloadFields payload cfg.omitFields) (hv : attempt.submittedValues = s.values) :
    Covered cfg s.history attempt field := by
  by_cases hbuild : cfg.buildPayload = true
  · exact .inr (.inr (.inl hbuild))
  by_cases homit : field ∈ cfg.omitFields
  · exact .inr (.inr (.inr (.inl homit)))
  have hlookup : ∀ entries : FormObject V,
      (entries.filter fun e => e.1 ∉ cfg.omitFields).lookup field = entries.lookup field := by
    intro entries
    rw [FormObject.lookup_filter fun key => decide (key ∉ cfg.omitFields), if_pos (by simpa using homit)]
  have hbacked := hinv.backed field
  rw [payloadOf, if_neg hbuild] at hpayload
  cases hmode : cfg.payloadMode with
  | changes =>
    simp only [hmode] at hpayload
    split at hpayload
    · cases hpayload
    cases hpayload
    have hentries := hlookup (valuesDiff s.values s.initial)
    rw [lookup_valuesDiff] at hentries
    by_cases hsame : s.values.get field = s.initial.get field
    · rw [if_neg (not_not.2 hsame)] at hentries
      rw [← hsame, ← hv] at hbacked
      exact .of_backed hbacked hp hentries
    · rw [if_pos hsame] at hentries
      refine .of_sent hp (hentries.trans ?_)
      rw [hv]
  | values =>
    simp only [hmode] at hpayload
    split at hpayload
    · rename_i hstrip
      cases hpayload
      have hentries := hlookup (stripUntouchedEmptyStrings s.values s.initial s.forceIncludeEmpty)
      rw [stripUntouchedEmptyStrings, FormObject.lookup_filter fun key => !(
        decide (key ∉ s.forceIncludeEmpty ∧ s.values.get key = emptyString ∧ s.initial.get key = emptyString) ||
          (isCurrencyOnlyMoney (s.values.get key) && isCurrencyOnlyMoney (s.initial.get key)))] at hentries
      by_cases hempty : field ∉ s.forceIncludeEmpty ∧ s.values.get field = emptyString ∧
          s.initial.get field = emptyString
      · -- an untouched empty string is its baseline
        have hbaseline : s.initial.get field = attempt.submittedValues.get field := by
          rw [hv, hempty.2.1, hempty.2.2]
        rw [hbaseline] at hbacked
        exact .of_backed hbacked hp (hentries.trans (if_neg (by simp [hempty])))
      by_cases hmoney : isCurrencyOnlyMoney (s.values.get field) = true
      · rw [← hv] at hmoney
        exact .inr (.inr (.inr (.inr ⟨hmode, hstrip, hmoney⟩)))
      · refine .of_values hp (hentries.trans ?_)
        rw [hv, if_pos]
        simp only [hempty, hmoney, decide_false, Bool.false_and, Bool.or_false, Bool.not_false]
    · cases hpayload
      refine .of_values hp ((hlookup s.values).trans ?_)
      rw [hv]

theorem BaselineInv.seedField (hinv : BaselineInv cfg s) (field : String) (value : V) :
    BaselineInv cfg (s.seedField field value) := by
  unfold FormController.seedField
  split
  · exact hinv
  refine ⟨fun key => ?_, fun attempt ha key => (hinv.covered attempt ha key).mark _⟩
  by_cases hkey : key = field
  · subst hkey
    refine .of_mark ?_
    rw [if_pos rfl]
    exact congrArg some FormObject.get_set_self.symm
  · have hget : (s.initial.set field value).get key = s.initial.get key := FormObject.get_set_of_ne hkey
    exact (congrArg (Backed cfg _ key) hget).mpr ((hinv.backed key).mark _)

theorem BaselineInv.submit (hinv : BaselineInv cfg s) : BaselineInv cfg (submit cfg s valid errors built) := by
  unfold FormController.submit
  split
  · exact hinv
  split
  · exact hinv.congr rfl rfl rfl
  cases hpayload : payloadOf cfg s built with
  | none => exact hinv.congr rfl rfl rfl
  | some payload =>
    dsimp only
    split
    · refine ⟨hinv.backed, fun attempt ha field => ?_⟩
      have hattempt := Option.some.inj ha
      have hcovered : Covered cfg s.history attempt field := covered_of_payloadOf hinv hpayload
        (congrArg Attempt.payload hattempt).symm (congrArg Attempt.submittedValues hattempt).symm
      exact hcovered
    · exact hinv.congr rfl rfl rfl

theorem BaselineInv.answer (hinv : BaselineInv cfg s) (ha : s.submitInFlight = some attempt) (result : WriteAnswer) :
    BaselineInv cfg (answer cfg s attempt result) := by
  cases result with
  | success =>
    refine ⟨fun field => ?_, fun _ hnone => by cases hnone⟩
    obtain hmark | hsent | hwithheld := hinv.covered attempt ha field
    · exact .inl hmark
    · exact .inr (.inl hsent)
    · exact .inr (.inr ⟨hwithheld, _, rfl, rfl⟩)
  | failed => exact ⟨hinv.backed, fun _ hnone => by cases hnone⟩
  | thrown => exact ⟨hinv.backed, fun _ hnone => by cases hnone⟩

theorem BaselineInv.step (hinv : BaselineInv cfg s) {a : Action V} (hstep : step cfg s a = some s') :
    BaselineInv cfg s' := by
  cases a with
  | setField key value =>
    cases hstep
    unfold FormController.setField
    split
    · exact hinv
    · exact hinv.congr rfl rfl rfl
  | setValues part =>
    cases hstep
    unfold FormController.setValues
    split
    · exact hinv
    · exact hinv.congr rfl rfl rfl
  | seedField field value =>
    cases hstep
    exact hinv.seedField field value
  | rebase =>
    cases hstep
    exact hinv.rebase
  | rebaseFields fields =>
    cases hstep
    exact hinv.rebaseFields fields
  | reset =>
    cases hstep
    unfold FormController.reset
    split
    · exact hinv
    · exact hinv.congr rfl rfl rfl
  | setErrors errors =>
    cases hstep
    exact hinv.congr rfl rfl rfl
  | submit valid errors built =>
    cases hstep
    exact hinv.submit
  | answer result =>
    obtain ⟨attempt, ha, rfl⟩ := Option.map_eq_some_iff.1 hstep
    exact hinv.answer ha result

end

/-! ## Request ids -/

/-- The ids of the writes so far, of the one in flight and of the last one without an answer. -/
structure RequestInv (cfg : SubmitConfig) (s : FormController V) : Prop where
  fresh : ∀ w ∈ s.history.writes, w.requestId < s.nextRequestId
  flight_fresh : ∀ attempt, s.submitInFlight = some attempt → attempt.requestId < s.nextRequestId
  unanswered_fresh : ∀ requestId fingerprint, s.unansweredAttempt = some (requestId, fingerprint) →
    requestId < s.nextRequestId
  fingerprint : ∀ attempt, s.submitInFlight = some attempt → attempt.fingerprint = stringify cfg.type attempt.payload
  /-- What is retried is what was sent under the id. -/
  unanswered : ∀ requestId fingerprint, s.unansweredAttempt = some (requestId, fingerprint) →
    ∀ w ∈ s.history.writes, requestId = w.requestId →
      cfg.type = w.type ∧ fingerprint = stringify w.type w.payload ∧ WriteAnswer.Unanswered w.answer
  flight : ∀ attempt, s.submitInFlight = some attempt → ∀ w ∈ s.history.writes, attempt.requestId = w.requestId →
    MayRepeat cfg.type attempt.payload w
  flight_unanswered : ∀ attempt requestId fingerprint, s.submitInFlight = some attempt →
    s.unansweredAttempt = some (requestId, fingerprint) → requestId = attempt.requestId →
      fingerprint = attempt.fingerprint
  repeated : s.history.writes.Pairwise fun newer older => newer.requestId = older.requestId →
    MayRepeat newer.type newer.payload older

section
variable {V : Type} [FormValue V] {cfg : SubmitConfig} {s s' : FormController V} {attempt : Attempt V}
  {payload built : Payload V} {errors : List String} {valid : Bool}

theorem requestInv_create (cfg : SubmitConfig) (initial : FormObject V) : RequestInv cfg (create initial) where
  fresh := by intro w hw; cases hw
  flight_fresh := by intro attempt ha; cases ha
  unanswered_fresh := by intro requestId fingerprint hu; cases hu
  fingerprint := by intro attempt ha; cases ha
  unanswered := by intro requestId fingerprint hu; cases hu
  flight := by intro attempt ha; cases ha
  flight_unanswered := by intro attempt requestId fingerprint ha; cases ha
  repeated := .nil

/-- Only submits and answers change what is sent. -/
theorem RequestInv.congr (hinv : RequestInv cfg s) (hf : s'.submitInFlight = s.submitInFlight)
    (hu : s'.unansweredAttempt = s.unansweredAttempt) (hn : s'.nextRequestId = s.nextRequestId)
    (hw : s'.history.writes = s.history.writes) : RequestInv cfg s' := by
  obtain ⟨h₁, h₂, h₃, h₄, h₅, h₆, h₇, h₈⟩ := hinv
  constructor <;> (try rw [hw]) <;> (try rw [hf]) <;> (try rw [hu]) <;> (try rw [hn]) <;> assumption

/-- A retry of the unanswered attempt has its id, any other write a new one. -/
theorem RequestInv.dispatch (hinv : RequestInv cfg s) (payload : Payload V) :
    RequestInv cfg (dispatch cfg s payload) := by
  obtain ⟨requestId, hattempt, hid⟩ : ∃ requestId, (FormController.dispatch cfg s payload).submitInFlight =
      some ⟨requestId, stringify cfg.type payload, payload, s.values⟩ ∧
      (requestId = s.nextRequestId ∨ s.unansweredAttempt = some (requestId, stringify cfg.type payload)) := by
    refine ⟨_, rfl, ?_⟩
    cases hu : s.unansweredAttempt with
    | none => exact .inl rfl
    | some unanswered =>
      obtain ⟨requestId, fingerprint⟩ := unanswered
      dsimp only
      split
      · next hsame => exact .inr (by rw [hsame])
      · exact .inl rfl
  have hlt : requestId < s.nextRequestId + 1 := by
    obtain rfl | hu := hid
    · exact Nat.lt_succ_self _
    · exact Nat.lt_succ_of_lt (hinv.unanswered_fresh _ _ hu)
  constructor
  · intro w hw
    exact Nat.lt_succ_of_lt (hinv.fresh w hw)
  · intro attempt ha
    obtain rfl := Option.some.inj (hattempt.symm.trans ha)
    exact hlt
  · intro requestId fingerprint hu
    exact Nat.lt_succ_of_lt (hinv.unanswered_fresh _ _ hu)
  · intro attempt ha
    obtain rfl := Option.some.inj (hattempt.symm.trans ha)
    rfl
  · exact hinv.unanswered
  · intro attempt ha w hw hsame
    obtain rfl := Option.some.inj (hattempt.symm.trans ha)
    obtain rfl | hu := hid
    · exact absurd hsame (Nat.ne_of_gt (hinv.fresh w hw))
    · obtain ⟨htype, hfingerprint, hanswer⟩ := hinv.unanswered _ _ hu w hw hsame
      exact ⟨htype, hfingerprint, hanswer⟩
  · intro attempt unansweredId fingerprint ha hu hsame
    obtain rfl := Option.some.inj (hattempt.symm.trans ha)
    have hu' : s.unansweredAttempt = some (unansweredId, fingerprint) := hu
    obtain rfl | hretry := hid
    · exact absurd hsame (Nat.ne_of_lt (hinv.unanswered_fresh _ _ hu'))
    · rw [hretry] at hu'
      cases hu'
      rfl
  · exact hinv.repeated

theorem RequestInv.submit [DecidableEq V] (hinv : RequestInv cfg s) :
    RequestInv cfg (submit cfg s valid errors built) := by
  unfold FormController.submit
  split
  · exact hinv
  split
  · exact hinv.congr rfl rfl rfl rfl
  cases payloadOf cfg s built with
  | none => exact hinv.congr rfl rfl rfl rfl
  | some payload =>
    dsimp only
    split
    · have hinv' : RequestInv cfg { s with errors } := hinv.congr rfl rfl rfl rfl
      exact hinv'.dispatch _
    · exact hinv.congr rfl rfl rfl rfl

/-- The end of the write in flight: it joins the writes, and its id is kept only where no answer came. -/
theorem RequestInv.answer [DecidableEq V] (hinv : RequestInv cfg s) (ha : s.submitInFlight = some attempt)
    (result : WriteAnswer) : RequestInv cfg (answer cfg s attempt result) := by
  have hwrites : (FormController.answer cfg s attempt result).history.writes =
      ⟨attempt.requestId, cfg.type, attempt.payload, result⟩ :: s.history.writes := by
    cases result <;> rfl
  have hflight : (FormController.answer cfg s attempt result).submitInFlight = none := by
    cases result <;> rfl
  have hnext : (FormController.answer cfg s attempt result).nextRequestId = s.nextRequestId := by
    cases result <;> rfl
  -- what is unanswered is this write, or what was before it
  have hunanswered : ∀ requestId fingerprint,
      (FormController.answer cfg s attempt result).unansweredAttempt = some (requestId, fingerprint) →
      WriteAnswer.Unanswered result ∧ (requestId = attempt.requestId ∧ fingerprint = attempt.fingerprint ∨
        s.unansweredAttempt = some (requestId, fingerprint)) := by
    intro requestId fingerprint hu
    cases result with
    | success => cases hu
    | failed isTransportFailure serverFields =>
      cases isTransportFailure with
      | false => cases hu
      | true =>
        cases hu
        exact ⟨.inr ⟨serverFields, rfl⟩, .inl ⟨rfl, rfl⟩⟩
    | thrown => exact ⟨.inl rfl, .inr hu⟩
  have hfingerprint := hinv.fingerprint attempt ha
  constructor
  · rw [hwrites, hnext]
    intro w hw
    rcases List.mem_cons.1 hw with rfl | hw
    · exact hinv.flight_fresh attempt ha
    · exact hinv.fresh w hw
  · intro attempt' ha'
    rw [hflight] at ha'
    cases ha'
  · intro requestId fingerprint hu
    rw [hnext]
    obtain ⟨-, ⟨rfl, -⟩ | hu⟩ := hunanswered _ _ hu
    · exact hinv.flight_fresh attempt ha
    · exact hinv.unanswered_fresh _ _ hu
  · intro attempt' ha'
    rw [hflight] at ha'
    cases ha'
  · intro requestId fingerprint hu w hw hsame
    rw [hwrites] at hw
    obtain ⟨hanswer, ⟨rfl, rfl⟩ | hu⟩ := hunanswered _ _ hu
    · rcases List.mem_cons.1 hw with rfl | hw
      · exact ⟨rfl, hfingerprint, hanswer⟩
      · obtain ⟨htype, hsaid, hold⟩ := hinv.flight attempt ha w hw hsame
        exact ⟨htype, hfingerprint.trans hsaid, hold⟩
    · rcases List.mem_cons.1 hw with rfl | hw
      · exact ⟨rfl, (hinv.flight_unanswered _ _ _ ha hu hsame).trans hfingerprint, hanswer⟩
      · exact hinv.unanswered _ _ hu w hw hsame
  · intro attempt' ha'
    rw [hflight] at ha'
    cases ha'
  · intro attempt' _ _ ha'
    rw [hflight] at ha'
    cases ha'
  · rw [hwrites]
    exact .cons (fun w hw hsame => hinv.flight attempt ha w hw hsame) hinv.repeated

/-- The calls that neither submit nor end a submit. -/
def Action.IsEdit : Action V → Prop
  | .submit _ _ _ | .answer _ => False
  | _ => True

/-- Edits leave everything about the writes as it is. -/
theorem edit_step [DecidableEq V] {a : Action V} (hedit : a.IsEdit) (hstep : step cfg s a = some s') :
    s'.submitInFlight = s.submitInFlight ∧ s'.unansweredAttempt = s.unansweredAttempt ∧
      s'.nextRequestId = s.nextRequestId ∧ s'.history.writes = s.history.writes := by
  cases a with
  | setField key value =>
    cases hstep
    unfold FormController.setField
    split <;> exact ⟨rfl, rfl, rfl, rfl⟩
  | setValues part =>
    cases hstep
    unfold FormController.setValues
    split <;> exact ⟨rfl, rfl, rfl, rfl⟩
  | seedField field value =>
    cases hstep
    unfold FormController.seedField
    split <;> exact ⟨rfl, rfl, rfl, rfl⟩
  | reset =>
    cases hstep
    unfold FormController.reset
    split <;> exact ⟨rfl, rfl, rfl, rfl⟩
  | rebase | rebaseFields | setErrors =>
    cases hstep
    exact ⟨rfl, rfl, rfl, rfl⟩
  | submit | answer => exact hedit.elim

theorem RequestInv.step [DecidableEq V] (hinv : RequestInv cfg s) {a : Action V} (hstep : step cfg s a = some s') :
    RequestInv cfg s' := by
  by_cases hedit : a.IsEdit
  · obtain ⟨hf, hu, hn, hw⟩ := edit_step hedit hstep
    exact hinv.congr hf hu hn hw
  cases a with
  | submit valid errors built =>
    cases hstep
    exact hinv.submit
  | answer result =>
    obtain ⟨attempt, ha, rfl⟩ := Option.map_eq_some_iff.1 hstep
    exact hinv.answer ha result
  | _ => exact absurd trivial hedit

/-! ## The write in flight -/

theorem submittedValues_of_submit [DecidableEq V] (hnone : s.submitInFlight = none)
    (ha : (FormController.submit cfg s valid errors built).submitInFlight = some attempt) :
    attempt.submittedValues = s.values := by
  unfold FormController.submit at ha
  rw [hnone, if_neg (by simp)] at ha
  split at ha
  · cases ha
  cases hpayload : payloadOf cfg s built with
  | none =>
    rw [hpayload] at ha
    cases ha
  | some payload =>
    rw [hpayload] at ha
    dsimp only at ha
    split at ha
    · exact (congrArg Attempt.submittedValues (Option.some.inj ha)).symm
    · cases ha

/-- Only the end of the write ends the flight. -/
theorem submitInFlight_step [DecidableEq V] (ha : s.submitInFlight = some attempt) {a : Action V} (hkeeps : a.KeepsFlight)
    (hstep : step cfg s a = some s') : s'.submitInFlight = some attempt := by
  by_cases hedit : a.IsEdit
  · exact (edit_step hedit hstep).1.trans ha
  cases a with
  | submit valid errors built =>
    cases hstep
    have hsome : s.submitInFlight.isSome = true := by rw [ha]; rfl
    rw [FormController.submit, if_pos hsome]
    exact ha
  | answer result => exact hkeeps.elim
  | _ => exact absurd trivial hedit

end

/-- In every run of a form's calls: what is shown as unchanged was the baseline at the start, seeded, rebased, sent or
withheld by configuration; what is set while a submit is in flight stays; and a request id is used again only for the
same write without an answer. -/
theorem form_keeps_unsent {cfg : SubmitConfig} {initial : FormObject V} {s : FormController V}
    (h : Run (step cfg) (fun _ _ => True) (create initial) s) : Kept cfg s := by
  have hbaseline := h.invariant (baselineInv_create cfg initial) fun _ _ _ hinv _ hstep => hinv.step hstep
  have hrequests := h.invariant (requestInv_create cfg initial) fun _ _ _ hinv _ hstep => hinv.step hstep
  refine ⟨fun field hsame => ?_, ?_, hrequests.repeated, hrequests.flight⟩
  · rw [hsame]
    exact hbaseline.backed field
  · intro valid errors built s₁ attempt s₂ s₃ hnone hsubmit ha hrun hanswer
    cases hsubmit
    have hvalues := submittedValues_of_submit hnone ha
    have hflight : s₂.submitInFlight = some attempt :=
      hrun.invariant ha fun _ _ _ hf hkeeps hstep => submitInFlight_step hf hkeeps hstep
    rw [step, hflight] at hanswer
    cases hanswer
    refine ⟨rfl, fun field _ => ?_⟩
    show s₂.values.get field ≠ attempt.submittedValues.get field ↔ _
    rw [hvalues]

/-! ## A form of texts -/

/-- Text fields, and `none` for undefined. -/
instance textValue : FormValue (Option String) where
  undefined := none
  emptyString := some ""
  isCurrencyOnlyMoney := fun _ => false
  stringify := fun type payload =>
    let text := fun s => "\"" ++ s ++ "\""
    match payload with
    | .object entries => "[" ++ text type ++ ",\x7b" ++
        ",".intercalate (entries.filterMap fun e => e.2.map fun v => text e.1 ++ ":" ++ text v) ++ "\x7d]"
    | .value v => "[" ++ text type ++ "," ++ (v.map text).getD "null" ++ "]"

/-- The calls of a form: a text is typed, sent and typed over while the write is in flight. -/
def typedOver : List (Action (Option String)) :=
  [.setField "title" (some "a"), .submit true [] (.value none), .setField "title" (some "b"), .answer .success]

theorem form_keeps_unsent_typedOver : ∃ s : FormController (Option String),
    exec (step { type := "orders:write:order:create" }) (create [("title", some "")]) typedOver = some s ∧
      s.values.get "title" = some "b" ∧ s.initial.get "title" = some "a" ∧
      Kept { type := "orders:write:order:create" } s := by
  have hexec : exec (step { type := "orders:write:order:create" }) (create [("title", some "")]) typedOver =
      some _ := rfl
  exact ⟨_, hexec, rfl, rfl, form_keeps_unsent (.of_exec hexec)⟩

/-- A note that is shown but never submitted is reported as unchanged once the rest is saved. -/
theorem not_form_keeps_unsent : ¬ ∀ (cfg : SubmitConfig) (initial : FormObject (Option String))
    (s : FormController (Option String)), Run (step cfg) (fun _ _ => True) (create initial) s →
    ∀ field, s.values.get field = s.initial.get field →
      (∃ values ∈ s.history.marks, values field = some (s.values.get field)) ∨
        s.history.sent field = some (s.values.get field) := by
  intro hall
  have hexec : exec (step { type := "orders:write:order:create", omitFields := ["note"] })
      (create [("title", some ""), ("note", some "")]) [.setField "title" (some "a"), .setField "note" (some "x"),
        .submit true [] (.value none), .answer .success] = some _ := rfl
  obtain ⟨values, hv, hnote⟩ | hsent := hall _ _ _ (.of_exec hexec) "note" rfl
  · obtain rfl := List.mem_singleton.1 hv
    exact absurd hnote (by decide)
  · exact absurd hsent (by decide)

end FormController

end Kumiko
