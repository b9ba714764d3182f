import Mathlib.Data.Int.Log
import Mathlib.Data.List.DropRight
import Mathlib.Data.Rat.Floor

/-!
# Signed tokens

`shared/signed-token.ts`: a subject, an expiry and a signature over purpose, subject and expiry. Where a subject
has neither a dot nor a colon, the signed text is read back from the right (`payload_inj`), and a token that
verifies carries the signature of its own payload (`verifyToken_ok`).
-/

namespace Kumiko

/-! ## Numbers and their texts -/

/-- The nearest finite number of 64 bits, ties to even. -/
def toBinary64 (q : ℚ) : Option ℚ :=
  if q = 0 then some 0
  else
    let unit : ℚ := 2 ^ max (Int.log 2 |q| - 52) (-1074)
    let down := ⌊|q| / unit⌋
    let rest := |q| / unit - down
    let steps := if 1 / 2 < rest ∨ (rest = 1 / 2 ∧ down % 2 = 1) then down + 1 else down
    if steps * unit < 2 ^ 1024 then some (if q < 0 then -(steps * unit) else steps * unit) else none

/-- The digits and the exponent of a text without a point, `digits * 10 ^ exponent`. -/
def readDecimal (text : List Char) : Option (List Char × ℤ) :=
  match text.span Char.isDigit with
  | ([], _) => none
  | (digits, []) => some (digits, 0)
  | (digits, 'e' :: sign :: exponent) =>
    if exponent ≠ [] ∧ exponent.all Char.isDigit then
      match sign with
      | '+' => some (digits, Nat.ofDigitChars 10 exponent 0)
      | '-' => some (digits, -Nat.ofDigitChars 10 exponent 0)
      | _ => none
    else none
  | _ => none

/-- How `String` writes the positive number `digits * 10 ^ (n - digits.length)`, where it needs no point. -/
def writeDecimal (digits : List Char) (n : ℤ) : Option (List Char) :=
  if digits.length ≤ n ∧ n ≤ 21 then
    some (digits ++ List.replicate (n - digits.length).toNat '0')
  else if digits.length = 1 ∧ (21 < n ∨ n ≤ -6) then
    some (digits ++ ['e', if 0 < n then '+' else '-'] ++ Nat.toDigits 10 (n - 1).natAbs)
  else none

/-- Whether no fewer digits, and no other digits that are nearer, name the number. -/
def shortest (x : ℚ) (digits : ℕ) (exponent : ℤ) : Bool :=
  let unit : ℚ := 10 ^ exponent
  let coarser : ℚ := 10 ^ (exponent + 1)
  let value := digits * unit
  toBinary64 (⌊x / coarser⌋ * coarser) ≠ some x && toBinary64 (⌈x / coarser⌉ * coarser) ≠ some x &&
    [value - unit, value + unit].all fun other =>
      toBinary64 other ≠ some x || |value - x| < |other - x| || (|value - x| = |other - x| && digits % 2 = 0)

/-- The finite positive number that `String` writes as this text, which has no point. -/
def positiveNumber (text : List Char) : Option ℚ := do
  let (read, exponent) ← readDecimal text
  let read := Nat.toDigits 10 (Nat.ofDigitChars 10 read 0)
  let digits := read.rdropWhile (· = '0')
  let exponent := exponent + (read.length - digits.length : ℕ)
  let value := Nat.ofDigitChars 10 digits 0
  let x ← toBinary64 (value * 10 ^ exponent)
  if 0 < x ∧ shortest x value exponent ∧ writeDecimal digits (exponent + digits.length) = some text then some x
  else none

/-- The integer that a sign and digits denote. -/
def signedDecimal : List Char → ℤ
  | '-' :: digits => -Nat.ofDigitChars 10 digits 0
  | digits => Nat.ofDigitChars 10 digits 0

/-- `Number(raw)` where it is finite and `String` writes it as `raw`, which has no point. An integer of up to 53 bits is
written as its digits. -/
def finiteNumber (raw : String) : Option ℚ :=
  let integer := signedDecimal raw.toList
  if toString integer = raw ∧ |integer| ≤ 2 ^ 53 then some integer
  else
    match raw.toList with
    | '-' :: text => (positiveNumber text).map (-·)
    | text => positiveNumber text

theorem signedDecimal_toString (z : ℤ) : signedDecimal (toString z).toList = z := by
  rw [Int.toString_eq_repr]
  cases z with
  | ofNat n =>
    have hlist : (Int.ofNat n).repr.toList = Nat.toDigits 10 n := by simp [Int.repr]
    rw [hlist]
    unfold signedDecimal
    split
    · next digits hdigits =>
      have hminus : '-' ∈ Nat.toDigits 10 n := by simp [hdigits]
      exact absurd (Nat.isDigit_of_mem_toDigits (by decide) (by decide) hminus) (by decide)
    · simp
  | negSucc n =>
    have hlist : (Int.negSucc n).repr.toList = '-' :: Nat.toDigits 10 (n + 1) := by simp [Int.repr]
    rw [hlist]
    simp only [signedDecimal, Nat.ofDigitChars_ten_toDigits]
    omega

/-- The text of a small integer is read as that integer. -/
theorem finiteNumber_toString {z : ℤ} (hz : |z| ≤ 2 ^ 53) : finiteNumber (toString z) = some z := by
  unfold finiteNumber
  simp only [signedDecimal_toString]
  exact if_pos ⟨trivial, hz⟩

theorem dot_notMem_toString (z : ℤ) : '.' ∉ (toString z).toList := by
  have hdigits (n : ℕ) : '.' ∉ Nat.toDigits 10 n := fun h =>
    absurd (Nat.isDigit_of_mem_toDigits (by decide) (by decide) h) (by decide)
  rw [Int.toString_eq_repr]
  cases z with
  | ofNat n => simpa [Int.repr] using hdigits n
  | negSucc n => simpa [Int.repr] using hdigits (n + 1)

/-! ## Instants -/

/-- The last instant, in nanoseconds since the epoch. -/
def maxInstant : ℤ := 8640000000000000 * 1000000

/-- `epochMilliseconds` -/
def epochMilliseconds (instant : ℤ) : ℤ := instant / 1000000

/-- `now.add({ minutes })`; `none` where it throws a `RangeError`. -/
def addMinutes (now minutes : ℤ) : Option ℤ :=
  let instant := now + minutes * 60000000000
  if |instant| ≤ maxInstant then some instant else none

/-- `Temporal.Instant.fromEpochMilliseconds`; `none` where it throws a `RangeError`. -/
def fromEpochMilliseconds (ms : ℚ) : Option ℤ :=
  if ms.den = 1 ∧ |ms.num * 1000000| ≤ maxInstant then some (ms.num * 1000000) else none

theorem abs_epochMilliseconds_le {now minutes instant : ℤ} (h : addMinutes now minutes = some instant) :
    |epochMilliseconds instant| ≤ 2 ^ 53 := by
  have hinstant : |instant| ≤ maxInstant := by
    simp only [addMinutes, Option.ite_none_right_eq_some, Option.some.injEq] at h
    exact h.2 ▸ h.1
  simp only [abs_le, maxInstant, epochMilliseconds] at hinstant ⊢
  omega

/-! ## Tokens -/

/-- The text that is signed, with the expiry as `String` writes it. Reference: `payload`. -/
def payload (purpose userId expiresAtMs : String) : String := purpose ++ ":" ++ userId ++ "." ++ expiresAtMs

/-- The arguments of `signToken`. -/
structure SignTokenArgs where
  userId : String
  purpose : String
  ttlMinutes : ℤ
  secret : String
  now : ℤ

/-- Reference: `VerifyResult`. -/
inductive VerifyResult where
  | ok (userId : String) (expiresAtMs : ℚ)
  | malformed
  | badSignature
  | expired

/-- The parts of a token that has the form of one. -/
structure TokenParts where
  userId : String
  expiresAtRaw : String
  expiresAtMs : ℚ
  signature : String

/-- The structural checks that `peekTokenSubject` and `verifyToken` share. -/
def tokenParts (token : String) : Option TokenParts :=
  match token.toList.splitOn '.' with
  | [userId, expiresAtRaw, signature] =>
    if userId = [] ∨ expiresAtRaw = [] ∨ signature = [] then none
    else
      (finiteNumber (String.ofList expiresAtRaw)).map fun expiresAtMs =>
        ⟨String.ofList userId, String.ofList expiresAtRaw, expiresAtMs, String.ofList signature⟩
  | _ => none

/-- Reference: `peekTokenSubject`. -/
def peekTokenSubject (token : String) : Option String := (tokenParts token).map (·.userId)

section Hmac

variable (hmac : String → String → String)

/-- The signature of a token that expires at the instant. -/
def SignTokenArgs.signature (args : SignTokenArgs) (expiresAt : ℤ) : String :=
  hmac (payload args.purpose args.userId (toString (epochMilliseconds expiresAt))) args.secret

/-- The token and the instant of its expiry; `none` where the instant is out of range. Reference: `signToken`. -/
def signToken (args : SignTokenArgs) : Option (String × ℤ) :=
  (addMinutes args.now args.ttlMinutes).map fun expiresAt =>
    (args.userId ++ "." ++ toString (epochMilliseconds expiresAt) ++ "." ++ args.signature hmac expiresAt, expiresAt)

/-- `none` where it throws a `RangeError`. Reference: `verifyToken`. -/
def verifyToken (token purpose secret : String) (now : ℤ) : Option VerifyResult :=
  match tokenParts token with
  | none => some .malformed
  | some parts =>
    if hmac (payload purpose parts.userId parts.expiresAtRaw) secret ≠ parts.signature then some .badSignature
    else
      (fromEpochMilliseconds parts.expiresAtMs).map fun expiresAt =>
        if expiresAt < now then .expired else .ok parts.userId parts.expiresAtMs

end Hmac

/-! ## Reading a signed text back -/

/-- Before a separator that neither beginning has, two lists with one concatenation agree. -/
theorem eq_of_append_cons_eq {α : Type*} {c : α} {xs xs' ys ys' : List α} (h : xs ++ c :: ys = xs' ++ c :: ys')
    (hx : c ∉ xs) (hx' : c ∉ xs') : xs = xs' ∧ ys = ys' := by
  induction xs generalizing xs' with
  | nil =>
    cases xs' with
    | nil => exact ⟨rfl, (List.cons.inj h).2⟩
    | cons x' xs' => exact absurd ((List.cons.inj h).1 ▸ List.mem_cons_self) hx'
  | cons x xs ih =>
    cases xs' with
    | nil => exact absurd ((List.cons.inj h).1 ▸ List.mem_cons_self) hx
    | cons x' xs' =>
      obtain ⟨hhead, htail⟩ := List.cons.inj h
      obtain ⟨hxs, hys⟩ := ih htail (List.not_mem_of_not_mem_cons hx) (List.not_mem_of_not_mem_cons hx')
      exact ⟨by rw [hhead, hxs], hys⟩

/-- The last separator of a text splits it in one way. -/
theorem eq_of_append_cons_eq_last {α : Type*} {c : α} {xs xs' ys ys' : List α} (h : xs ++ c :: ys = xs' ++ c :: ys')
    (hy : c ∉ ys) (hy' : c ∉ ys') : xs = xs' ∧ ys = ys' := by
  have hrev : ys.reverse ++ c :: xs.reverse = ys'.reverse ++ c :: xs'.reverse := by
    simpa using congrArg List.reverse h
  obtain ⟨hys, hxs⟩ := eq_of_append_cons_eq hrev (by simpa using hy) (by simpa using hy')
  exact ⟨List.reverse_injective hxs, List.reverse_injective hys⟩

theorem toList_payload (purpose userId expiresAtMs : String) :
    (payload purpose userId expiresAtMs).toList =
      (purpose.toList ++ ':' :: userId.toList) ++ '.' :: expiresAtMs.toList := by
  simp [payload]

/-- A subject without colons and an expiry without dots make a signed text that is read back in one way, whatever the
purpose. -/
theorem payload_inj {purpose purpose' userId userId' expiry expiry' : String}
    (h : payload purpose userId expiry = payload purpose' userId' expiry')
    (hu : ':' ∉ userId.toList) (hu' : ':' ∉ userId'.toList)
    (he : '.' ∉ expiry.toList) (he' : '.' ∉ expiry'.toList) :
    purpose = purpose' ∧ userId = userId' ∧ expiry = expiry' := by
  have hlist := congrArg String.toList h
  rw [toList_payload, toList_payload] at hlist
  obtain ⟨hfront, hexpiry⟩ := eq_of_append_cons_eq_last hlist he he'
  obtain ⟨hpurpose, huser⟩ := eq_of_append_cons_eq_last hfront hu hu'
  exact ⟨String.toList_injective hpurpose, String.toList_injective huser, String.toList_injective hexpiry⟩

/-! ## Tokens that verify -/

/-- No piece of a split list has the separator. -/
theorem notMem_of_mem_splitOn {α : Type*} [BEq α] [LawfulBEq α] {c : α} {xs piece : List α}
    (h : piece ∈ xs.splitOn c) : c ∉ piece := by
  induction xs generalizing piece with
  | nil => simp_all
  | cons x xs ih =>
    rw [List.splitOn_cons_eq_if_modifyHead] at h
    split at h
    · rcases List.mem_cons.1 h with rfl | h
      · exact List.not_mem_nil
      · exact ih h
    · next hx =>
      obtain ⟨first, pieces, hsplit⟩ := List.exists_cons_of_ne_nil (List.splitOn_ne_nil c xs)
      rw [hsplit] at h ih
      rcases List.mem_cons.1 h with rfl | h
      · exact List.not_mem_cons_of_ne_of_not_mem (fun hc => hx (beq_iff_eq.2 hc.symm)) (ih List.mem_cons_self)
      · exact ih (List.mem_cons_of_mem _ h)

/-- A token is its parts, of which the expiry is the text of a number. -/
structure TokenParts.Of (parts : TokenParts) (token : String) : Prop where
  token_eq : token = parts.userId ++ "." ++ parts.expiresAtRaw ++ "." ++ parts.signature
  number : finiteNumber parts.expiresAtRaw = some parts.expiresAtMs
  dot_notMem : '.' ∉ parts.expiresAtRaw.toList

theorem of_tokenParts {token : String} {parts : TokenParts} (h : tokenParts token = some parts) :
    parts.Of token := by
  unfold tokenParts at h
  split at h
  · next userId expiresAtRaw signature hsplit =>
    split at h
    · cases h
    · obtain ⟨expiresAtMs, hnumber, rfl⟩ := Option.map_eq_some_iff.1 h
      refine ⟨String.toList_injective ?_, hnumber, ?_⟩
      · have htoken : List.intercalate ['.'] (token.toList.splitOn '.') = token.toList := List.intercalate_splitOn '.'
        rw [← htoken, hsplit]
        simp [List.intercalate]
      · have hmem : expiresAtRaw ∈ token.toList.splitOn '.' := by simp [hsplit]
        rw [String.toList_ofList]
        exact notMem_of_mem_splitOn hmem
  · cases h

theorem peekTokenSubject_eq_some {token subject : String} :
    peekTokenSubject token = some subject ↔ ∃ parts, tokenParts token = some parts ∧ parts.userId = subject :=
  Option.map_eq_some_iff

/-- A token that verifies carries the signature of its own subject and expiry under the purpose, and has not
expired. -/
theorem verifyToken_ok {hmac : String → String → String} {token purpose secret userId : String} {now : ℤ}
    {expiresAtMs : ℚ} (h : verifyToken hmac token purpose secret now = some (.ok userId expiresAtMs)) :
    ∃ parts expiresAt, tokenParts token = some parts ∧ parts.userId = userId ∧ parts.expiresAtMs = expiresAtMs ∧
      parts.signature = hmac (payload purpose userId parts.expiresAtRaw) secret ∧
      fromEpochMilliseconds expiresAtMs = some expiresAt ∧ now ≤ expiresAt := by
  unfold verifyToken at h
  split at h
  · cases h
  · next parts hparts =>
    split at h
    · cases h
    · next hsignature =>
      obtain ⟨expiresAt, hinstant, hresult⟩ := Option.map_eq_some_iff.1 h
      split at hresult
      · cases hresult
      · next hnow =>
        cases hresult
        exact ⟨parts, expiresAt, hparts, rfl, rfl, (not_not.1 hsignature).symm, hinstant, not_lt.1 hnow⟩

end Kumiko
