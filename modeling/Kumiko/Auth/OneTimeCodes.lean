import Kumiko.Library.ExpiringKeys
import Kumiko.Library.Run
import Mathlib.Algebra.Ring.Int.Defs
import Mathlib.Algebra.Ring.Nat
import Mathlib.Data.List.DropRight
import Mathlib.Data.List.Perm.Basic

/-!
# One-time codes

`auth-mfa/verify-factor.ts`, `totp.ts`, `handlers/verify.write.ts` and `shared/token-burn-store.ts` for one
enrollment. The marker of a burned counter lasts sixty seconds, and a code that is burned before its own step is
valid for longer. Where every counter is burned within its step or after it, no code is accepted twice
(`codes_once_of_run`).
-/

namespace Kumiko

open Transition

/-! ## Codes -/

/-- What the handlers take from the platform. -/
structure MfaPlatform where
  hmacSha1 : List UInt8 → List UInt8 → List UInt8
  /-- Argon2. -/
  verifyPassword : String → String → Bool
  toUpperCase : String → String

/-- Reference: `STEP_SECONDS`. -/
def stepSeconds : ℤ := 30

/-- Reference: `writeUInt32BE`. -/
def uint32BE (n : ℕ) : List UInt8 := [n >>> 24, n >>> 16, n >>> 8, n].map UInt8.ofNat

/-- The two halves of a counter. Reference: `counterBuf` in `hotp`. -/
def counterBuf (counter : ℤ) : List UInt8 :=
  uint32BE (counter / 2 ^ 32).toNat ++ uint32BE (counter % 2 ^ 32).toNat

/-- Reference: `hotp` after the digest. -/
def truncateHmac (hmac : List UInt8) : String :=
  let byte (i : ℕ) : ℕ := (hmac.getD i 0).toNat
  let offset := byte (hmac.length - 1) &&& 0x0f
  let truncated := ((byte offset &&& 0x7f) <<< 24) ||| ((byte (offset + 1) &&& 0xff) <<< 16) |||
    ((byte (offset + 2) &&& 0xff) <<< 8) ||| (byte (offset + 3) &&& 0xff)
  String.ofList (List.leftpad 6 '0' (Nat.toDigits 10 (truncated % 10 ^ 6)))

/-- Reference: `ALPHABET` of `base32.ts`. -/
def base32Alphabet : List Char := "ABCDEFGHIJKLMNOPQRSTUVWXYZ234567".toList

/-- White space of a regular expression. -/
def isWhiteSpace (c : Char) : Bool :=
  [0x9, 0xa, 0xb, 0xc, 0xd, 0x20, 0xa0, 0x1680, 0x2028, 0x2029, 0x202f, 0x205f, 0x3000, 0xfeff].contains c.toNat ||
    (0x2000 ≤ c.toNat && c.toNat ≤ 0x200a)

/-- The bits that are left over, their number and the bytes so far. The value wraps at 32 bits. -/
def base32Step (acc : ℕ × ℕ × List UInt8) (c : Char) : Option (ℕ × ℕ × List UInt8) :=
  (base32Alphabet.idxOf? c).map fun index =>
    let value := (acc.1 <<< 5 ||| index) % 2 ^ 32
    let bits := acc.2.1 + 5
    if 8 ≤ bits then (value, bits - 8, acc.2.2 ++ [UInt8.ofNat (value >>> (bits - 8))])
    else (value, bits, acc.2.2)

namespace MfaPlatform

variable (P : MfaPlatform)

/-- Reference: `base32Decode`. -/
def base32Decode (encoded : String) : Option (List UInt8) :=
  let clean := ((P.toUpperCase encoded).toList.filter (!isWhiteSpace ·)).rdropWhile (· = '=')
  match clean.foldlM base32Step (0, 0, []) with
  | none => none
  | some (value, bits, bytes) => if 5 ≤ bits ∨ value &&& (1 <<< bits - 1) ≠ 0 then none else some bytes

/-- Reference: `hotp`. -/
def hotp (secret : List UInt8) (counter : ℤ) : String := truncateHmac (P.hmacSha1 secret (counterBuf counter))

/-- Reference: `totpAt`. -/
def totpAt (secret : List UInt8) (epochSeconds : ℤ) : String := P.hotp secret (epochSeconds / stepSeconds)

/-- One candidate of the window; a later match replaces an earlier one. -/
def matchStep (secret : List UInt8) (code : String) (nowSeconds : ℤ) (matched : Option ℤ) (w : ℤ) : Option ℤ :=
  let candidate := nowSeconds + w * stepSeconds
  if P.totpAt secret candidate = code then some (candidate / stepSeconds) else matched

/-- The counter that the code belongs to. Reference: `verifyTotp`. -/
def verifyTotp (secret : List UInt8) (code : String) (nowMs : ℤ) : Option ℤ :=
  if code.length = 6 ∧ code.toList.all Char.isDigit then
    [-1, 0, 1].foldl (P.matchStep secret code (nowMs / 1000)) none
  else none

/-- Reference: `normalizeRecoveryCode`. -/
def normalizeRecoveryCode (code : String) : String :=
  String.ofList ((P.toUpperCase code).toList.filter fun c => ('A' ≤ c && c ≤ 'Z') || ('2' ≤ c && c ≤ '9'))

end MfaPlatform

/-- Reference: `UserMfaRow`. -/
structure UserMfaRow where
  id : String
  version : ℕ
  totpSecret : String
  hashes : List String
  deriving DecidableEq

/-- A recovery code as it was matched: the version of the row and what is left of its hashes. -/
structure RecoveryUse where
  code : String
  hash : String
  version : ℕ
  remainingHashes : List String

/-- Reference: `findMatchingRecoveryCodeIndex` and `remainingHashes` in `verifyMfaFactor`. -/
def MfaPlatform.findRecoveryUse (P : MfaPlatform) (code : String) (row : UserMfaRow) : Option RecoveryUse :=
  let normalized := P.normalizeRecoveryCode code
  (row.hashes.findIdx? fun hash => P.verifyPassword hash normalized).map fun i =>
    ⟨normalized, row.hashes.getD i "", row.version, row.hashes.eraseIdx i⟩

/-! ## Markers -/

/-- Reference: `burnKey`. -/
def burnKey (purpose userId : String) (expiresAtMs : ℤ) : String :=
  "kumiko:auth:burn:" ++ purpose ++ ":" ++ userId ++ ":" ++ toString expiresAtMs

/-- The larger of a minute and what is left, rounded up to seconds. Reference: `ttlSeconds` in `burnToken`. -/
def burnTtl (expiresAtMs now : ℤ) : ℤ := max 60 (-(-(expiresAtMs - now) / 1000))

/-- Reference: `expiresAtMs` in `verifyMfaFactor`. -/
def counterExpiry (counter : ℤ) : ℤ := (counter + 1) * stepSeconds * 1000

/-- Reference: the key of `burnToken` in `verifyMfaFactor`. -/
def counterKey (userId rowId : String) (counter : ℤ) : String :=
  burnKey "mfa-totp" (userId ++ ":" ++ rowId) (counterExpiry counter)

/-- The moment from which no clock reading accepts the code of the counter. -/
def codeEnd (counter : ℤ) : ℤ := (counter + 2) * stepSeconds * 1000

/-! ## Verifications -/

/-- Before which statement a verification is. -/
inductive VerifyPhase where
  | findRow (code : String) (challengeExpiresAt : ℤ)
  | verifyFactor (code : String) (challengeExpiresAt : ℤ) (row : UserMfaRow)
  | counterTtl (challengeExpiresAt : ℤ) (rowId : String) (counter : ℤ)
  | counterBurn (challengeExpiresAt : ℤ) (rowId : String) (counter ttlSeconds : ℤ)
  | challengeTtl (challengeExpiresAt : ℤ) (recovery : Option RecoveryUse)
  | challengeBurn (challengeExpiresAt ttlSeconds : ℤ) (recovery : Option RecoveryUse)
  | update (recovery : RecoveryUse)
  /-- The session is derived, and the transaction is before its end. -/
  | derive

/-- A counter whose marker was fresh, and when. -/
structure TotpAcceptance where
  counter : ℤ
  time : ℤ
  deriving DecidableEq

/-- The clock, the burn markers, the enrollment with the update that is not committed yet, the verifications, and
what was accepted. -/
structure MfaStore (n : ℕ) where
  now : ℤ
  redis : ExpiringKeys.Store String Unit
  row : UserMfaRow
  pending : Option (Fin n × RecoveryUse)
  phases : Fin n → Option VerifyPhase
  totpAccepted : List TotpAcceptance
  recoveryAccepted : List RecoveryUse

inductive MfaAct (n : ℕ) where
  | tick (ms : ℕ)
  | start (k : Fin n) (code : String) (challengeExpiresAt : ℤ)
  /-- The next statement of the verification. -/
  | run (k : Fin n)
  /-- The verification is refused or fails, and its transaction is rolled back. -/
  | fail (k : Fin n)
  | commit (k : Fin n)

namespace MfaStore

variable {n : ℕ} (P : MfaPlatform) (userId : String) (s : MfaStore n)

def initial (now : ℤ) (row : UserMfaRow) : MfaStore n := ⟨now, fun _ => none, row, none, fun _ => none, [], []⟩

def setPhase (k : Fin n) (phase : Option VerifyPhase) : MfaStore n :=
  { s with phases := Function.update s.phases k phase }

/-- Reference: `burnToken` after the lifetime is computed. -/
def burn (key : String) (ttlSeconds : ℤ) : Option (ExpiringKeys.Store String Unit) :=
  ExpiringKeys.setNx s.now s.redis key () (s.now + ttlSeconds * 1000)

/-- The next statement of a verification. Reference: `verifyMfaFactor`, `verify`. -/
def runVerify (k : Fin n) : VerifyPhase → Option (MfaStore n)
  | .findRow code challengeExpiresAt => some (s.setPhase k (some (.verifyFactor code challengeExpiresAt s.row)))
  | .verifyFactor code challengeExpiresAt row =>
    match P.base32Decode row.totpSecret with
    | none => some (s.setPhase k none)
    | some secret =>
      match P.verifyTotp secret code s.now with
      | some counter => some (s.setPhase k (some (.counterTtl challengeExpiresAt row.id counter)))
      | none =>
        match P.findRecoveryUse code row with
        | none => some (s.setPhase k none)
        | some recovery => some (s.setPhase k (some (.challengeTtl challengeExpiresAt (some recovery))))
  | .counterTtl challengeExpiresAt rowId counter =>
    some (s.setPhase k
      (some (.counterBurn challengeExpiresAt rowId counter (burnTtl (counterExpiry counter) s.now))))
  | .counterBurn challengeExpiresAt rowId counter ttlSeconds =>
    match s.burn (counterKey userId rowId counter) ttlSeconds with
    | none => some (s.setPhase k none)
    | some redis =>
      some { s.setPhase k (some (.challengeTtl challengeExpiresAt none)) with
        redis, totpAccepted := s.totpAccepted ++ [⟨counter, s.now⟩] }
  | .challengeTtl challengeExpiresAt recovery =>
    some (s.setPhase k
      (some (.challengeBurn challengeExpiresAt (burnTtl challengeExpiresAt s.now) recovery)))
  | .challengeBurn challengeExpiresAt ttlSeconds recovery =>
    match s.burn (burnKey "mfa-challenge" userId challengeExpiresAt) ttlSeconds with
    | none => some (s.setPhase k none)
    | some redis => some { s.setPhase k (some ((recovery.map .update).getD .derive)) with redis }
  | .update recovery =>
    -- The event of an update that is not committed yet makes this one wait.
    if s.pending.isSome then none
    else if s.row.version = recovery.version then
      some { s.setPhase k (some .derive) with pending := some (k, recovery) }
    else some (s.setPhase k none)
  | .derive => none

/-- The update of the transaction that ends. -/
def pendingOf (k : Fin n) : Option RecoveryUse := s.pending.bind fun p => if p.1 = k then some p.2 else none

/-- Reference: `encodeRecoveryCodes` in the update of `verify`. -/
def commitVerify (k : Fin n) : MfaStore n :=
  match s.pendingOf k with
  | none => s.setPhase k none
  | some recovery =>
    { s.setPhase k none with
      row := { s.row with hashes := recovery.remainingHashes, version := s.row.version + 1 }
      pending := none
      recoveryAccepted := s.recoveryAccepted ++ [recovery] }

def step : MfaAct n → Option (MfaStore n)
  | .tick ms => some { s with now := s.now + ms }
  | .start k code challengeExpiresAt =>
    if (s.phases k).isSome then none else some (s.setPhase k (some (.findRow code challengeExpiresAt)))
  | .run k => (s.phases k).bind (s.runVerify P userId k)
  | .fail k => some { s.setPhase k none with pending := if (s.pendingOf k).isSome then none else s.pending }
  | .commit k =>
    match s.phases k with
    | some .derive => some (s.commitVerify k)
    | _ => none

/-! ## What every run maintains -/

/-- A counter is burned when its step has begun. -/
def BurnsInStep (s : MfaStore n) : MfaAct n → Prop
  | .run k => ∀ challengeExpiresAt rowId counter ttlSeconds,
      s.phases k = some (.counterBurn challengeExpiresAt rowId counter ttlSeconds) →
        counter * stepSeconds * 1000 ≤ s.now
  | _ => True

end MfaStore

/-- What a match of a recovery code knows of the row: as long as the version is the one it has read, the hash and what
is left make up its hashes. -/
structure RecoveryUse.Ok (P : MfaPlatform) (row : UserMfaRow) (recovery : RecoveryUse) : Prop where
  version : recovery.version ≤ row.version
  hashes : recovery.version = row.version → (recovery.hash :: recovery.remainingHashes).Perm row.hashes
  opens : P.verifyPassword recovery.hash recovery.code

/-- What a verification has read. -/
def VerifyPhase.Ok (P : MfaPlatform) (row : UserMfaRow) : VerifyPhase → Prop
  | .verifyFactor _ _ r => r.id = row.id ∧ r.version ≤ row.version ∧ (r.version = row.version → r = row)
  | .counterTtl _ rowId _ => rowId = row.id
  | .counterBurn _ rowId _ ttlSeconds => rowId = row.id ∧ 60 ≤ ttlSeconds
  | .challengeTtl _ recovery | .challengeBurn _ _ recovery => ∀ use, recovery = some use → use.Ok P row
  | .update recovery => recovery.Ok P row
  | .findRow .. | .derive => True

/-- The times at which a counter was accepted while its code was valid. -/
def acceptedInTime (accepted : List TotpAcceptance) (counter : ℤ) : List TotpAcceptance :=
  accepted.filter fun a => a.counter = counter ∧ a.time < codeEnd counter

/-- The uses of a recovery code. -/
def recoveryUses (accepted : List RecoveryUse) (code : String) : List RecoveryUse :=
  accepted.filter fun use => use.code = code

namespace MfaStore

structure MfaInv (P : MfaPlatform) (userId : String) (issued : List String) (s : MfaStore n) : Prop where
  past : ∀ a ∈ s.totpAccepted, a.time ≤ s.now
  /-- The marker of a counter lasts as long as its code. -/
  marked : ∀ a ∈ s.totpAccepted, s.now < codeEnd a.counter → ∃ expiry,
    s.redis (counterKey userId s.row.id a.counter) = some ((), expiry) ∧ codeEnd a.counter ≤ expiry
  once : ∀ counter, (acceptedInTime s.totpAccepted counter).length ≤ 1
  /-- Every hash is left or used. -/
  conserved : (s.row.hashes ++ s.recoveryAccepted.map (·.hash)).Perm issued
  opened : ∀ use ∈ s.recoveryAccepted, P.verifyPassword use.hash use.code
  pending : ∀ k use, s.pending = some (k, use) → use.version = s.row.version ∧ use.Ok P s.row
  phases : ∀ k phase, s.phases k = some phase → phase.Ok P s.row

end MfaStore

/-! ## Codes and their windows -/

section
variable {P : MfaPlatform} {code : String} {nowMs counter : ℤ} {row row' : UserMfaRow}
  {recovery : RecoveryUse} {phase : VerifyPhase}

theorem le_burnTtl {expiresAtMs : ℤ} : 60 ≤ burnTtl expiresAtMs nowMs := Int.le_max_left ..

/-- Within the step of the counter, or after it, the marker outlasts the code. -/
theorem codeEnd_le {ttlSeconds : ℤ} (hstep : counter * stepSeconds * 1000 ≤ nowMs) (httl : 60 ≤ ttlSeconds) :
    codeEnd counter ≤ nowMs + ttlSeconds * 1000 := by
  simp only [codeEnd, stepSeconds] at hstep ⊢
  omega

theorem findRecoveryUse_ok (h : P.findRecoveryUse code row = some recovery) : recovery.Ok P row := by
  obtain ⟨i, hi, rfl⟩ := Option.map_eq_some_iff.1 h
  obtain ⟨hlt, hopens, -⟩ := List.findIdx?_eq_some_iff_getElem.1 hi
  have hget : row.hashes.getD i "" = row.hashes[i] := by
    rw [List.getD_eq_getElem?_getD, List.getElem?_eq_getElem hlt, Option.getD_some]
  refine ⟨Nat.le_refl _, fun _ => ?_, ?_⟩
  · show (row.hashes.getD i "" :: row.hashes.eraseIdx i).Perm row.hashes
    rw [hget]
    exact List.getElem_cons_eraseIdx_perm hlt
  · show P.verifyPassword (row.hashes.getD i "") (P.normalizeRecoveryCode code) = true
    rwa [hget]

theorem RecoveryUse.Ok.of_row (h : recovery.Ok P row) (hversion : row.version ≤ row'.version)
    (heq : row.version = row'.version → row' = row) : recovery.Ok P row' := by
  refine ⟨Nat.le_trans h.version hversion, fun hv => ?_, h.opens⟩
  have hle := h.version
  obtain rfl := heq (by omega)
  exact h.hashes hv

/-- What was read of a row is what was read of it after the row has changed. -/
theorem VerifyPhase.Ok.of_row (h : phase.Ok P row) (hid : row'.id = row.id) (hversion : row.version ≤ row'.version)
    (heq : row.version = row'.version → row' = row) : phase.Ok P row' := by
  cases phase with
  | findRow code challengeExpiresAt => trivial
  | verifyFactor code challengeExpiresAt r =>
    obtain ⟨hr, hle, hrow⟩ := h
    refine ⟨hr.trans hid.symm, Nat.le_trans hle hversion, fun hv => ?_⟩
    obtain rfl := heq (by omega)
    exact hrow hv
  | counterTtl challengeExpiresAt rowId counter => exact Eq.trans h hid.symm
  | counterBurn challengeExpiresAt rowId counter ttlSeconds => exact ⟨h.1.trans hid.symm, h.2⟩
  | challengeTtl challengeExpiresAt recovery => exact fun use huse => (h use huse).of_row hversion heq
  | challengeBurn challengeExpiresAt ttlSeconds recovery => exact fun use huse => (h use huse).of_row hversion heq
  | update recovery => exact RecoveryUse.Ok.of_row h hversion heq
  | derive => trivial

end

/-! ## Steps -/

namespace MfaStore

variable {n : ℕ} {P : MfaPlatform} {userId : String} {issued : List String} {s s' : MfaStore n} {k : Fin n}
  {phase : Option VerifyPhase}

/-- A step that moves one verification. -/
theorem MfaInv.setPhase (h : MfaInv P userId issued s) (hok : ∀ p, phase = some p → p.Ok P s.row) :
    MfaInv P userId issued (s.setPhase k phase) := by
  refine ⟨h.past, h.marked, h.once, h.conserved, h.opened, h.pending, fun k' p hp => ?_⟩
  have hp : Function.update s.phases k phase k' = some p := hp
  rcases eq_or_ne k' k with rfl | hne
  · rw [Function.update_self] at hp
    exact hok p hp
  · rw [Function.update_of_ne hne] at hp
    exact h.phases k' p hp

/-- A marker that is set leaves those of the accepted counters. -/
theorem MfaInv.burn {key : String} {ttlSeconds : ℤ} {redis : ExpiringKeys.Store String Unit}
    (h : MfaInv P userId issued s) (hburn : s.burn key ttlSeconds = some redis) :
    MfaInv P userId issued { s with redis } := by
  refine ⟨h.past, fun a ha hlt => ?_, h.once, h.conserved, h.opened, h.pending, h.phases⟩
  obtain ⟨expiry, hmarker, hle⟩ := h.marked a ha hlt
  have hnow : s.now < expiry := Int.lt_of_lt_of_le hlt hle
  exact ⟨expiry, ExpiringKeys.setNx_keeps hburn hmarker hnow, hle⟩

/-- A counter that is burned in its step has not been accepted before. -/
theorem MfaInv.accept {counter ttlSeconds : ℤ} {redis : ExpiringKeys.Store String Unit}
    (h : MfaInv P userId issued s) (hburn : s.burn (counterKey userId s.row.id counter) ttlSeconds = some redis)
    (hstep : counter * stepSeconds * 1000 ≤ s.now) (httl : 60 ≤ ttlSeconds) :
    MfaInv P userId issued { s with redis, totpAccepted := s.totpAccepted ++ [⟨counter, s.now⟩] } := by
  have hkept := h.burn hburn
  refine ⟨fun a ha => ?_, fun a ha hlt => ?_, fun counter' => ?_, h.conserved, h.opened, h.pending, h.phases⟩
  · rcases List.mem_append.1 ha with ha | ha
    · exact h.past a ha
    · obtain rfl := List.mem_singleton.1 ha
      exact Int.le_refl _
  · rcases List.mem_append.1 ha with ha | ha
    · exact hkept.marked a ha hlt
    · obtain rfl := List.mem_singleton.1 ha
      refine ⟨s.now + ttlSeconds * 1000, ?_, codeEnd_le hstep httl⟩
      show redis (counterKey userId s.row.id counter) = _
      rw [(ExpiringKeys.setNx_eq_some hburn).2, ExpiringKeys.set_self]
  · show (acceptedInTime (s.totpAccepted ++ [⟨counter, s.now⟩]) counter').length ≤ 1
    rw [acceptedInTime, List.filter_append, List.length_append]
    by_cases hnew : counter = counter' ∧ s.now < codeEnd counter'
    · obtain ⟨rfl, hlt⟩ := hnew
      -- An earlier acceptance has left a marker that is still there.
      have hnone : acceptedInTime s.totpAccepted counter = [] := by
        refine List.filter_eq_nil_iff.2 fun a ha hin => ?_
        obtain ⟨hcounter, -⟩ := of_decide_eq_true hin
        obtain ⟨expiry, hmarker, hle⟩ := h.marked a ha (hcounter ▸ hlt)
        rw [hcounter] at hmarker hle
        have hrefused : s.burn (counterKey userId s.row.id counter) ttlSeconds = none :=
          ExpiringKeys.setNx_eq_none hmarker (Int.lt_of_lt_of_le hlt hle)
        rw [hrefused] at hburn
        cases hburn
      rw [acceptedInTime] at hnone
      rw [hnone, List.length_nil, Nat.zero_add]
      exact List.length_filter_le ..
    · rw [List.filter_cons_of_neg (by simpa using hnew)]
      exact h.once counter'

theorem pendingOf_eq_some {use : RecoveryUse} (h : s.pendingOf k = some use) : s.pending = some (k, use) := by
  obtain ⟨⟨k', use'⟩, hp, hk⟩ := Option.bind_eq_some_iff.1 h
  dsimp only at hk
  split at hk
  · next heq =>
    cases hk
    rw [hp, heq]
  · cases hk

/-- A commit uses up the hash. -/
theorem MfaInv.commitVerify (h : MfaInv P userId issued s) : MfaInv P userId issued (s.commitVerify k) := by
  unfold MfaStore.commitVerify
  cases hp : s.pendingOf k with
  | none => exact h.setPhase fun p hp => (nomatch hp)
  | some use =>
    obtain ⟨hversion, hok⟩ := h.pending k use (pendingOf_eq_some hp)
    have hset : MfaInv P userId issued (s.setPhase k none) := h.setPhase fun p hp => (nomatch hp)
    refine ⟨h.past, h.marked, h.once, ?_, fun u hu => ?_, fun k' u hu => (nomatch hu), fun k' p hphase => ?_⟩
    · show (use.remainingHashes ++ (s.recoveryAccepted ++ [use]).map (·.hash)).Perm issued
      rw [List.map_append, ← List.append_assoc]
      refine List.Perm.trans ?_ h.conserved
      refine (List.perm_append_singleton ..).trans ?_
      rw [← List.cons_append]
      exact (hok.hashes hversion).append_right _
    · rcases List.mem_append.1 hu with hu | hu
      · exact h.opened u hu
      · obtain rfl := List.mem_singleton.1 hu
        exact hok.opens
    · refine (hset.phases k' p hphase).of_row rfl (Nat.le_succ _) fun heq => ?_
      have heq : s.row.version = s.row.version + 1 := heq
      omega

theorem MfaInv.runVerify {p : VerifyPhase} (h : MfaInv P userId issued s) (hphase : s.phases k = some p)
    (hok : s.BurnsInStep (.run k)) (hs : s.runVerify P userId k p = some s') : MfaInv P userId issued s' := by
  have hread := h.phases k p hphase
  have hend : MfaInv P userId issued (s.setPhase k none) := h.setPhase fun p hp => (nomatch hp)
  cases p with
  | findRow code challengeExpiresAt =>
    cases hs
    refine h.setPhase fun p hp => ?_
    cases hp
    exact ⟨rfl, Nat.le_refl _, fun _ => rfl⟩
  | verifyFactor code challengeExpiresAt row =>
    obtain ⟨hid, hle, hrow⟩ := hread
    rw [MfaStore.runVerify] at hs
    cases hsecret : P.base32Decode row.totpSecret with
    | none =>
      simp only [hsecret] at hs
      cases hs
      exact hend
    | some secret =>
      simp only [hsecret] at hs
      cases hcounter : P.verifyTotp secret code s.now with
      | some counter =>
        simp only [hcounter] at hs
        cases hs
        refine h.setPhase fun p hp => ?_
        cases hp
        exact hid
      | none =>
        simp only [hcounter] at hs
        cases hrecovery : P.findRecoveryUse code row with
        | none =>
          simp only [hrecovery] at hs
          cases hs
          exact hend
        | some recovery =>
          simp only [hrecovery] at hs
          cases hs
          refine h.setPhase fun p hp => ?_
          cases hp
          intro use huse
          cases huse
          exact (findRecoveryUse_ok hrecovery).of_row hle fun hv => (hrow hv).symm
  | counterTtl challengeExpiresAt rowId counter =>
    cases hs
    refine h.setPhase fun p hp => ?_
    cases hp
    exact ⟨hread, le_burnTtl⟩
  | counterBurn challengeExpiresAt rowId counter ttlSeconds =>
    obtain ⟨rfl, httl⟩ := hread
    rw [MfaStore.runVerify] at hs
    cases hburn : s.burn (counterKey userId s.row.id counter) ttlSeconds with
    | none =>
      simp only [hburn] at hs
      cases hs
      exact hend
    | some redis =>
      simp only [hburn] at hs
      cases hs
      refine (h.accept hburn (hok _ _ _ _ hphase) httl).setPhase fun p hp => ?_
      cases hp
      exact fun use huse => (nomatch huse)
  | challengeTtl challengeExpiresAt recovery =>
    cases hs
    refine h.setPhase fun p hp => ?_
    cases hp
    exact hread
  | challengeBurn challengeExpiresAt ttlSeconds recovery =>
    rw [MfaStore.runVerify] at hs
    cases hburn : s.burn (burnKey "mfa-challenge" userId challengeExpiresAt) ttlSeconds with
    | none =>
      simp only [hburn] at hs
      cases hs
      exact hend
    | some redis =>
      simp only [hburn] at hs
      cases hs
      refine (h.burn hburn).setPhase fun p hp => ?_
      cases recovery with
      | none => cases hp; trivial
      | some recovery => cases hp; exact hread recovery rfl
  | update recovery =>
    rw [MfaStore.runVerify] at hs
    split at hs
    · cases hs
    · split at hs
      · next hversion =>
        cases hs
        have hset : MfaInv P userId issued (s.setPhase k (some .derive)) := h.setPhase fun p hp => by cases hp; trivial
        refine ⟨h.past, h.marked, h.once, h.conserved, h.opened, fun k' use huse => ?_, hset.phases⟩
        cases huse
        exact ⟨hversion.symm, hread⟩
      · cases hs
        exact hend
  | derive => cases hs

theorem MfaInv.step {a : MfaAct n} (h : MfaInv P userId issued s) (hok : s.BurnsInStep a)
    (hs : s.step P userId a = some s') : MfaInv P userId issued s' := by
  cases a with
  | tick ms =>
    cases hs
    refine ⟨fun a ha => ?_, fun a ha hlt => ?_, h.once, h.conserved, h.opened, h.pending, h.phases⟩
    · have hpast := h.past a ha
      show a.time ≤ s.now + ms
      omega
    · have hlt : s.now + ms < codeEnd a.counter := hlt
      exact h.marked a ha (by omega)
  | start k code challengeExpiresAt =>
    rw [MfaStore.step] at hs
    split at hs
    · cases hs
    · cases hs
      refine h.setPhase fun p hp => ?_
      cases hp
      trivial
  | run k =>
    obtain ⟨p, hphase, hs⟩ := Option.bind_eq_some_iff.1 hs
    exact h.runVerify hphase hok hs
  | fail k =>
    cases hs
    have hset : MfaInv P userId issued (s.setPhase k none) := h.setPhase fun p hp => (nomatch hp)
    refine ⟨h.past, h.marked, h.once, h.conserved, h.opened, fun k' use huse => ?_, hset.phases⟩
    have huse : (if (s.pendingOf k).isSome then none else s.pending) = some (k', use) := huse
    split at huse
    · cases huse
    · exact h.pending k' use huse
  | commit k =>
    rw [MfaStore.step] at hs
    split at hs
    · cases hs
      exact h.commitVerify
    · cases hs

theorem mfaInv_initial {now : ℤ} {row : UserMfaRow} : MfaInv P userId row.hashes (initial (n := n) now row) := by
  refine ⟨fun a ha => (nomatch ha), fun a ha => (nomatch ha), fun _ => Nat.zero_le _, ?_, fun u hu => (nomatch hu),
    fun k u hu => (nomatch hu), fun k p hp => (nomatch hp)⟩
  show (row.hashes ++ []).Perm row.hashes
  rw [List.append_nil]

/-- Where every counter is burned in its step or later, a counter is accepted at most once while its code is valid,
and a recovery code at most as often as it opens a hash that was issued: once, where it was issued once. -/
theorem codes_once_of_run {now : ℤ} {row : UserMfaRow}
    (hr : Run (MfaStore.step P userId) BurnsInStep (initial (n := n) now row) s) :
    (∀ counter, (acceptedInTime s.totpAccepted counter).length ≤ 1) ∧
      ∀ code, (recoveryUses s.recoveryAccepted code).length ≤ row.hashes.countP (P.verifyPassword · code) := by
  have hinv : MfaInv P userId row.hashes s := hr.invariant mfaInv_initial fun _ _ _ h hok hs => h.step hok hs
  refine ⟨hinv.once, fun code => ?_⟩
  calc (recoveryUses s.recoveryAccepted code).length
      = s.recoveryAccepted.countP fun use => use.code = code := List.countP_eq_length_filter.symm
    _ ≤ s.recoveryAccepted.countP fun use => P.verifyPassword use.hash code := by
      refine List.countP_mono_left fun use huse hcode => ?_
      have hopened := hinv.opened use huse
      rwa [of_decide_eq_true hcode] at hopened
    _ = (s.recoveryAccepted.map (·.hash)).countP (P.verifyPassword · code) := by
      rw [List.countP_map]
      rfl
    _ ≤ (s.row.hashes ++ s.recoveryAccepted.map (·.hash)).countP (P.verifyPassword · code) := by
      rw [List.countP_append]
      exact Nat.le_add_left ..
    _ = row.hashes.countP (P.verifyPassword · code) := hinv.conserved.countP_eq _

/-! ## Runs -/

/-- The condition, evaluated. -/
def burnsInStepB (s : MfaStore n) : MfaAct n → Bool
  | .run k => match s.phases k with
    | some (.counterBurn _ _ counter _) => decide (counter * stepSeconds * 1000 ≤ s.now)
    | _ => true
  | _ => true

theorem burnsInStep_of_check {a : MfaAct n} (h : burnsInStepB s a = true) : s.BurnsInStep a := by
  cases a with
  | run k =>
    intro challengeExpiresAt rowId counter ttlSeconds hphase
    rw [burnsInStepB, hphase] at h
    exact of_decide_eq_true h
  | tick ms => trivial
  | start k code challengeExpiresAt => trivial
  | fail k => trivial
  | commit k => trivial

end MfaStore

/-- The digests of the secret `12345678901234567890` for the counters 1 and 2, and a hash that opens with its code. -/
def samplePlatform : MfaPlatform where
  hmacSha1 secret buf :=
    if secret = "12345678901234567890".toList.map fun c => UInt8.ofNat c.toNat then
      if buf = [0, 0, 0, 0, 0, 0, 0, 1] then
        [117, 164, 138, 25, 212, 203, 225, 0, 100, 78, 138, 193, 57, 126, 234, 116, 122, 45, 51, 171]
      else if buf = [0, 0, 0, 0, 0, 0, 0, 2] then
        [11, 172, 183, 250, 8, 47, 239, 48, 120, 34, 17, 147, 139, 193, 197, 231, 4, 22, 255, 68]
      else []
    else []
  verifyPassword hash code := hash = "hash of " ++ code
  toUpperCase s := String.ofList (s.toList.map Char.toUpper)

def sampleMfaRow : UserMfaRow where
  id := "mfa"
  version := 1
  totpSecret := "GEZDGNBVGY3TQOJQGEZDGNBVGY3TQOJQ"
  hashes := ["hash of ABCD2345", "hash of EFGH6789"]

namespace MfaStore

/-- The statements of a verification by the code of a counter, with its clock readings at one moment. -/
def verifyTotpActs (k : Fin 2) (code : String) (challengeExpiresAt : ℤ) : List (MfaAct 2) :=
  [.start k code challengeExpiresAt, .run k, .run k, .run k, .run k, .run k, .run k, .commit k]

/-- The statements of a verification by a recovery code. -/
def verifyRecoveryActs (k : Fin 2) (code : String) (challengeExpiresAt : ℤ) : List (MfaAct 2) :=
  [.start k code challengeExpiresAt, .run k, .run k, .run k, .run k, .run k, .commit k]

/-- A code that is replayed under another challenge is refused, and a recovery code is used once. -/
theorem codes_once_of_run_replay : ∃ s : MfaStore 2,
    (s.totpAccepted = [⟨2, 60000⟩] ∧ s.recoveryAccepted.map (·.code) = ["ABCD2345"]) ∧
      (∀ counter, (acceptedInTime s.totpAccepted counter).length ≤ 1) ∧
      ∀ code, (recoveryUses s.recoveryAccepted code).length ≤
        sampleMfaRow.hashes.countP (samplePlatform.verifyPassword · code) := by
  obtain ⟨s, hr, hs⟩ := exists_run_of_execOk (MfaStore.step samplePlatform "u") burnsInStepB
    (initial 60000 sampleMfaRow)
    (verifyTotpActs 0 "359152" 600000 ++
      [.tick 59999, .start 1 "359152" 700000, .run 1, .run 1, .run 1, .run 1] ++
      verifyRecoveryActs 1 "abcd-2345" 700000)
    (fun s => decide (s.totpAccepted = [⟨2, 60000⟩] ∧ s.recoveryAccepted.map (·.code) = ["ABCD2345"]))
    (fun s a h => burnsInStep_of_check h) (by decide +kernel) (by decide +kernel)
  exact ⟨s, of_decide_eq_true hs, codes_once_of_run hr⟩

/-- A code that is accepted one step early is accepted once more when its marker has expired. -/
theorem early_code_accepted_twice : ¬∀ s : MfaStore 2,
    Run (MfaStore.step samplePlatform "u") (fun _ _ => True) (initial 30000 sampleMfaRow) s →
      ∀ counter, (acceptedInTime s.totpAccepted counter).length ≤ 1 := by
  intro h
  obtain ⟨s, hr, hs⟩ := exists_run_of_exec (MfaStore.step samplePlatform "u") (initial 30000 sampleMfaRow)
    (verifyTotpActs 0 "359152" 600000 ++ [.tick 60000] ++ verifyTotpActs 1 "359152" 700000)
    (fun s => decide (s.totpAccepted = [⟨2, 30000⟩, ⟨2, 90000⟩])) (by decide +kernel)
  have honce := h s hr 2
  rw [of_decide_eq_true hs] at honce
  exact absurd honce (by decide)

end MfaStore

end Kumiko
