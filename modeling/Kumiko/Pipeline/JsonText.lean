import Mathlib.Data.List.TakeWhile
import Kumiko.Library.UuidText
import Kumiko.Pipeline.IdempotencyGuard

/-!
# Reading JSON text back

`utils/safe-json.ts` reads what Redis holds with `JSON.parse`. `parseValue` follows the grammar of JSON, with
the escapes of a string undone. It reads what `JSON.stringify` wrote back as the value it was written from
(`parseJsonSafe_storedText`).
-/

namespace Kumiko

/-! ## The grammar -/

def isJsonSpace (c : Char) : Bool := c = ' ' || c = '\n' || c = '\t' || c = '\r'

def skipSpace (cs : List Char) : List Char := cs.dropWhile isJsonSpace

def isNumberChar (c : Char) : Bool := c.isDigit || c = '-' || c = '+' || c = '.' || c = 'e' || c = 'E'

/-- What follows one digit or more. -/
def afterDigits : List Char → Option (List Char)
  | [] => none
  | c :: cs => if c.isDigit then some (cs.dropWhile Char.isDigit) else none

/-- What follows the fraction of a number, where there is one. -/
def afterFraction : List Char → Option (List Char)
  | '.' :: cs => afterDigits cs
  | cs => some cs

/-- What follows the exponent of a number, where there is one. -/
def afterExponent : List Char → Option (List Char)
  | c :: cs =>
    if c = 'e' ∨ c = 'E' then
      match cs with
      | [] => none
      | sign :: digits => if sign = '+' ∨ sign = '-' then afterDigits digits else afterDigits (sign :: digits)
    else some (c :: cs)
  | [] => some []

/-- What follows the digits before the point, which have no zero in front. -/
def afterInteger : List Char → Option (List Char)
  | '0' :: cs => some cs
  | cs => afterDigits cs

/-- A number of the grammar. -/
def isJsonNumber (text : List Char) : Bool :=
  let unsigned := match text with
    | '-' :: cs => cs
    | cs => cs
  ((afterInteger unsigned).bind afterFraction).bind afterExponent == some []

def parseNumber (cs : List Char) : Option (JsonTree × List Char) :=
  match cs.takeWhile isNumberChar with
  | [] => none
  | c :: tail =>
    if h : c = '-' ∨ c.isDigit = true then
      if isJsonNumber (c :: tail) then some (.number ⟨c, tail, h⟩, cs.dropWhile isNumberChar) else none
    else none

/-- The code unit of four hexadecimal digits. -/
def unicodeEscape (a b c d : Char) : Option ℕ := do
  return 4096 * (← hexDigit a) + 256 * (← hexDigit b) + 16 * (← hexDigit c) + (← hexDigit d)

def simpleEscape (c : Char) : Option Char :=
  if c = '"' ∨ c = '\\' ∨ c = '/' then some c
  else if c = 'n' then some '\n'
  else if c = 'r' then some '\r'
  else if c = 't' then some '\t'
  else if c = 'b' then some (.ofNat 8)
  else if c = 'f' then some (.ofNat 12)
  else none

/-- A code point in front of what was read. -/
def consUnit (unit : ℕ) (p : List ℕ × List Char) : List ℕ × List Char := (unit :: p.1, p.2)

/-- The code points of the rest of a string, after its opening quote, and what follows it. The surrogates of a pair are
still apart. -/
def parseUnits : List Char → Option (List ℕ × List Char)
  | [] => none
  | '"' :: rest => some ([], rest)
  | '\\' :: 'u' :: a :: b :: c :: d :: rest =>
    (unicodeEscape a b c d).bind fun unit => (parseUnits rest).map (consUnit unit)
  | '\\' :: c :: rest => (simpleEscape c).bind fun char => (parseUnits rest).map (consUnit char.toNat)
  | c :: rest => if c.toNat < 32 then none else (parseUnits rest).map (consUnit c.toNat)

/-- The character of a code point. A surrogate alone is a replacement character, as in UTF-8. -/
def unitChar (unit : ℕ) : Char := if unit.isValidChar then .ofNat unit else .ofNat 0xFFFD

/-- The character of a surrogate pair. -/
def surrogatePair (high low : ℕ) : Option Char :=
  if 0xD800 ≤ high ∧ high < 0xDC00 ∧ 0xDC00 ≤ low ∧ low < 0xE000 then
    some (.ofNat (0x10000 + 1024 * (high - 0xD800) + (low - 0xDC00)))
  else none

def joinSurrogates : List ℕ → List Char
  | [] => []
  | [unit] => [unitChar unit]
  | high :: low :: units =>
    match surrogatePair high low with
    | some char => char :: joinSurrogates units
    | none => unitChar high :: joinSurrogates (low :: units)

/-- The rest of a string, after its opening quote, and what follows it. -/
def parseText (cs : List Char) : Option (List Char × List Char) :=
  (parseUnits cs).map fun p => (joinSurrogates p.1, p.2)

mutual

/-- A value, and what follows it. -/
def parseValue : ℕ → List Char → Option (JsonTree × List Char)
  | 0, _ => none
  | fuel + 1, cs =>
    match skipSpace cs with
    | 'n' :: 'u' :: 'l' :: 'l' :: rest => some (.null, rest)
    | 't' :: 'r' :: 'u' :: 'e' :: rest => some (.bool true, rest)
    | 'f' :: 'a' :: 'l' :: 's' :: 'e' :: rest => some (.bool false, rest)
    | '"' :: rest => (parseText rest).map fun p => (.text (.ofList p.1), p.2)
    | '[' :: rest =>
      match skipSpace rest with
      | ']' :: rest => some (.array [], rest)
      | rest => (parseItems fuel rest).map fun p => (.array p.1, p.2)
    | '\x7b' :: rest =>
      match skipSpace rest with
      | '\x7d' :: rest => some (.object [], rest)
      | rest => (parseFields fuel rest).map fun p => (.object p.1, p.2)
    | rest => parseNumber rest

/-- The items of an array up to its end, at least one. -/
def parseItems : ℕ → List Char → Option (List JsonTree × List Char)
  | 0, _ => none
  | fuel + 1, cs => do
    let (item, rest) ← parseValue fuel cs
    match skipSpace rest with
    | ',' :: rest => do
      let (items, rest) ← parseItems fuel rest
      some (item :: items, rest)
    | ']' :: rest => some ([item], rest)
    | _ => none

/-- The fields of an object up to its end, at least one. -/
def parseFields : ℕ → List Char → Option (List (String × JsonTree) × List Char)
  | 0, _ => none
  | fuel + 1, cs =>
    match skipSpace cs with
    | '"' :: rest => do
      let (key, rest) ← parseText rest
      match skipSpace rest with
      | ':' :: rest => do
        let (value, rest) ← parseValue fuel rest
        match skipSpace rest with
        | ',' :: rest => do
          let (fields, rest) ← parseFields fuel rest
          some ((.ofList key, value) :: fields, rest)
        | '\x7d' :: rest => some ([(.ofList key, value)], rest)
        | _ => none
      | _ => none
    | _ => none

end

/-- Reference: `JSON.parse`. -/
def parseJson (text : String) : Option JsonTree :=
  match parseValue (text.toList.length + 1) text.toList with
  | some (tree, rest) => if (skipSpace rest).isEmpty then some tree else none
  | none => none

/-- Reference: `parseJsonSafe`. -/
def parseJsonSafe (text : String) (fallback : JsonTree) : JsonTree := (parseJson text).getD fallback

/-! ## Numbers and strings -/

/-- The text of the number is a number. -/
def NumberText.Valid (n : NumberText) : Prop :=
  isJsonNumber (n.head :: n.tail) = true ∧ ∀ c ∈ n.head :: n.tail, isNumberChar c = true

/-- What may follow a value. -/
def EndsNumber (rest : List Char) : Prop := ∀ c ∈ rest.head?, isNumberChar c = false

theorem endsNumber_cons {c : Char} {rest : List Char} (h : isNumberChar c = false) : EndsNumber (c :: rest) :=
  fun _ hc => by cases hc; exact h

theorem takeWhile_append_of_head {p : Char → Bool} {cs rest : List Char} (h : ∀ c ∈ cs, p c = true)
    (hr : ∀ c ∈ rest.head?, p c = false) :
    (cs ++ rest).takeWhile p = cs ∧ (cs ++ rest).dropWhile p = rest := by
  rw [List.takeWhile_append_of_pos h, List.dropWhile_append_of_pos h]
  cases rest with
  | nil => simp
  | cons c rest => simp [hr c rfl]

theorem parseNumber_append {n : NumberText} {rest : List Char} (hn : n.Valid) (hr : EndsNumber rest) :
    parseNumber (n.head :: n.tail ++ rest) = some (.number n, rest) := by
  obtain ⟨htake, hdrop⟩ := takeWhile_append_of_head hn.2 hr
  rw [parseNumber, htake, hdrop]
  simp only [n.head_ok, hn.1, dif_pos, if_true]

/-- A number without a zero in front is one of the grammar. -/
theorem isJsonNumber_digits {c : Char} {tail : List Char} (hc : c.isDigit = true)
    (htail : ∀ d ∈ tail, d.isDigit = true) (hzero : c = '0' → tail = []) : isJsonNumber (c :: tail) = true := by
  have hminus : c ≠ '-' := by
    rintro rfl
    cases hc
  have hinteger : afterInteger (c :: tail) = some [] := by
    unfold afterInteger
    split
    · next heq =>
      obtain ⟨rfl, rfl⟩ := List.cons.inj heq
      rw [hzero rfl]
    · simp only [afterDigits, hc, if_true, List.dropWhile_eq_nil_iff.2 htail]
  unfold isJsonNumber
  split
  · next heq => exact absurd (List.cons.inj heq).1 hminus
  · simp only [hinteger, Option.bind_some, afterFraction, afterExponent, beq_self_eq_true]

theorem isNumberChar_digit {c : Char} (h : c.isDigit = true) : isNumberChar c = true := by simp [isNumberChar, h]

theorem toDigits_zero_head (n : ℕ) : ∀ tail, Nat.toDigits 10 n = '0' :: tail → tail = [] := by
  induction n using Nat.strongRecOn with
  | ind n ih =>
    intro tail h
    rw [Nat.toDigits_eq_if (by omega)] at h
    split at h
    · exact (List.cons.inj h).2.symm
    · next hn =>
      cases hd : Nat.toDigits 10 (n / 10) with
      | nil => exact absurd hd Nat.toDigits_ne_nil
      | cons c cs =>
        -- the digits of a tenth start with a zero, so the tenth is zero
        rw [hd, List.cons_append] at h
        obtain ⟨rfl, -⟩ := List.cons.inj h
        obtain rfl := ih (n / 10) (by omega) cs hd
        have hvalue := Nat.ofDigitChars_ten_toDigits (n := n / 10)
        rw [hd, show Nat.ofDigitChars 10 ['0'] 0 = 0 by decide] at hvalue
        omega

/-- The text of a natural number. -/
def numberOfNat (n : ℕ) : NumberText where
  head := (Nat.toDigits 10 n).head Nat.toDigits_ne_nil
  tail := (Nat.toDigits 10 n).tail
  head_ok := .inr (Nat.isDigit_of_mem_toDigits (by omega) (by omega) (List.head_mem _))

theorem numberOfNat_valid (n : ℕ) : (numberOfNat n).Valid := by
  have hdigits : ∀ c ∈ Nat.toDigits 10 n, c.isDigit = true := fun c hc =>
    Nat.isDigit_of_mem_toDigits (by omega) (by omega) hc
  have hcons : (numberOfNat n).head :: (numberOfNat n).tail = Nat.toDigits 10 n := List.cons_head_tail _
  refine ⟨isJsonNumber_digits ?_ (fun c hc => ?_) (fun hzero => ?_), ?_⟩
  · exact hdigits _ (List.head_mem _)
  · exact hdigits c (List.mem_of_mem_tail hc)
  · refine toDigits_zero_head n _ ?_
    rw [← hzero, hcons]
  · rw [hcons]
    exact fun c hc => isNumberChar_digit (hdigits c hc)

theorem hexDigit_digitChar : ∀ d < 16, hexDigit (Nat.digitChar d) = some d := by decide

theorem unicodeEscape_digitChar {c : Char} (h : c.toNat < 32) :
    unicodeEscape '0' '0' (Nat.digitChar (c.toNat / 16)) (Nat.digitChar (c.toNat % 16)) = some c.toNat := by
  have hzero : hexDigit '0' = some 0 := by decide
  have hhigh := hexDigit_digitChar (c.toNat / 16) (by omega)
  have hlow := hexDigit_digitChar (c.toNat % 16) (by omega)
  rw [unicodeEscape, hzero, hhigh, hlow]
  exact congrArg some (show 4096 * 0 + 256 * 0 + 16 * (c.toNat / 16) + c.toNat % 16 = c.toNat by omega)

theorem unitChar_toNat (c : Char) : unitChar c.toNat = c := by
  have hvalid : c.toNat.isValidChar := c.valid
  rw [unitChar, if_pos hvalid, Char.ofNat_toNat]

/-- One character of a string, where it needs no escape. -/
theorem parseUnits_cons {c : Char} {rest : List Char} (hquote : c ≠ '"') (hslash : c ≠ '\\')
    (hcontrol : ¬ c.toNat < 32) : parseUnits (c :: rest) = (parseUnits rest).map (consUnit c.toNat) := by
  rw [parseUnits.eq_def]
  split
  · next heq => cases heq
  · next heq => exact absurd (List.cons.inj heq).1 hquote
  · next heq => exact absurd (List.cons.inj heq).1 hslash
  · next heq => exact absurd (List.cons.inj heq).1 hslash
  · next heq =>
    obtain ⟨rfl, rfl⟩ := List.cons.inj heq
    rw [if_neg hcontrol]

theorem parseUnits_simpleEscape {c char : Char} {rest : List Char} (hu : c ≠ 'u') (h : simpleEscape c = some char) :
    parseUnits ('\\' :: c :: rest) = (parseUnits rest).map (consUnit char.toNat) := by
  rw [parseUnits.eq_def]
  split
  all_goals simp_all
  · next hne heq =>
    obtain ⟨rfl, rfl⟩ := heq
    exact absurd rfl (hne c rest rfl)

/-- A character comes back from its escape. -/
theorem parseUnits_escapeChar (c : Char) (rest : List Char) :
    parseUnits (escapeChar c ++ rest) = (parseUnits rest).map (consUnit c.toNat) := by
  unfold escapeChar
  split
  · next h =>
    subst h
    exact parseUnits_simpleEscape (by decide) rfl
  split
  · next h =>
    subst h
    exact parseUnits_simpleEscape (by decide) rfl
  split
  · next h =>
    subst h
    exact parseUnits_simpleEscape (by decide) rfl
  split
  · next h =>
    subst h
    exact parseUnits_simpleEscape (by decide) rfl
  split
  · next h =>
    subst h
    exact parseUnits_simpleEscape (by decide) rfl
  split
  · next h =>
    obtain rfl : c = .ofNat 8 := by rw [← h, Char.ofNat_toNat]
    exact parseUnits_simpleEscape (by decide) rfl
  split
  · next h =>
    obtain rfl : c = .ofNat 12 := by rw [← h, Char.ofNat_toNat]
    exact parseUnits_simpleEscape (by decide) rfl
  split
  · next h =>
    simp only [List.cons_append, List.nil_append, parseUnits, unicodeEscape_digitChar h, Option.bind_some]
  · next hquote hslash _ _ _ _ _ hcontrol => exact parseUnits_cons hquote hslash hcontrol

/-- The code points of a string come back from its text. -/
theorem parseUnits_quoted (cs rest : List Char) :
    parseUnits (cs.flatMap escapeChar ++ '"' :: rest) = some (cs.map Char.toNat, rest) := by
  induction cs with
  | nil => rfl
  | cons c cs ih => rw [List.flatMap_cons, List.append_assoc, parseUnits_escapeChar, ih]; rfl

theorem joinSurrogates_toNat : ∀ cs : List Char, joinSurrogates (cs.map Char.toNat) = cs
  | [] => rfl
  | [c] => by simp [joinSurrogates, unitChar_toNat]
  | c :: c' :: cs => by
    -- a character is no surrogate
    have hpair : surrogatePair c.toNat c'.toNat = none := if_neg fun h => by
      have hvalid : c.toNat < 0xD800 ∨ 0xDFFF < c.toNat ∧ c.toNat < 0x110000 := c.valid
      omega
    have ih := joinSurrogates_toNat (c' :: cs)
    rw [List.map_cons] at ih
    rw [List.map_cons, List.map_cons, joinSurrogates, hpair]
    simp only [unitChar_toNat, ih]

/-- A string comes back from its text. -/
theorem parseText_quoted (cs rest : List Char) :
    parseText (cs.flatMap escapeChar ++ '"' :: rest) = some (cs, rest) := by
  rw [parseText, parseUnits_quoted, Option.map_some, joinSurrogates_toNat]

/-! ## Values -/

mutual

/-- The numbers of a value are numbers of the grammar. -/
def JsonTree.Valid : JsonTree → Prop
  | .number n => n.Valid
  | .array items => JsonTree.ValidItems items
  | .object fields => JsonTree.ValidFields fields
  | .null | .bool _ | .text _ => True

def JsonTree.ValidItems : List JsonTree → Prop
  | [] => True
  | item :: items => item.Valid ∧ JsonTree.ValidItems items

def JsonTree.ValidFields : List (String × JsonTree) → Prop
  | [] => True
  | field :: fields => field.2.Valid ∧ JsonTree.ValidFields fields

end

theorem skipSpace_cons {c : Char} {cs : List Char} (h : isJsonSpace c = false) : skipSpace (c :: cs) = c :: cs := by
  simp [skipSpace, h]

/-- The text of a value starts with neither space nor a closing bracket. -/
theorem stringify_starts (tree : JsonTree) :
    ∃ c rest, tree.stringify = c :: rest ∧ isJsonSpace c = false ∧ c ≠ ']' := by
  obtain ⟨c, rest, hlist, hhead⟩ := stringify_head tree
  refine ⟨c, rest, hlist, ?_, ?_⟩
  · rw [Bool.eq_false_iff]
    intro h
    simp only [isJsonSpace, Bool.or_eq_true, decide_eq_true_eq] at h
    obtain ((rfl | rfl) | rfl) | rfl := h <;> exact absurd hhead (by decide)
  · rintro rfl
    exact absurd hhead (by decide)

/-- Text that starts like a number is read as one. -/
theorem parseValue_number {n : NumberText} (fuel : ℕ) (rest : List Char) :
    parseValue (fuel + 1) (n.head :: n.tail ++ rest) = parseNumber (n.head :: n.tail ++ rest) := by
  obtain ⟨c, cs, hstart, hspace, -⟩ := stringify_starts (.number n)
  rw [JsonTree.stringify] at hstart
  cases hstart
  rw [parseValue.eq_def]
  simp only [List.cons_append, skipSpace_cons hspace]
  split
  all_goals first | rfl | skip
  all_goals
    next heq =>
      obtain ⟨hhead, -⟩ := List.cons.inj heq
      have hok := n.head_ok
      rw [hhead] at hok
      exact absurd hok (by decide)

theorem stringifyItems_cons (item next : JsonTree) (items : List JsonTree) (rest : List Char) :
    JsonTree.stringifyItems (item :: next :: items) ++ rest =
      item.stringify ++ ',' :: (JsonTree.stringifyItems (next :: items) ++ rest) := by
  rw [JsonTree.stringifyItems, List.append_assoc, List.cons_append]
  simp

theorem stringifyFields_singleton (field : String × JsonTree) (rest : List Char) :
    JsonTree.stringifyFields [field] ++ rest =
      '"' :: (field.1.toList.flatMap escapeChar ++ '"' :: ':' :: (field.2.stringify ++ '\x7d' :: rest)) := by
  simp [JsonTree.stringifyFields, quoteText]

theorem stringifyFields_cons (field next : String × JsonTree) (fields : List (String × JsonTree))
    (rest : List Char) :
    JsonTree.stringifyFields (field :: next :: fields) ++ rest =
      '"' :: (field.1.toList.flatMap escapeChar ++
        '"' :: ':' :: (field.2.stringify ++ ',' :: (JsonTree.stringifyFields (next :: fields) ++ rest))) := by
  simp [JsonTree.stringifyFields, quoteText]

/-- The text of an array's items starts like the text of the first. -/
theorem stringifyItems_starts (item : JsonTree) (items : List JsonTree) (rest : List Char) :
    ∃ c cs, JsonTree.stringifyItems (item :: items) ++ rest = c :: cs ∧ isJsonSpace c = false ∧ c ≠ ']' := by
  obtain ⟨c, cs, hstart, hspace, hbracket⟩ := stringify_starts item
  cases items with
  | nil =>
    exact ⟨c, _, by rw [JsonTree.stringifyItems, hstart, List.cons_append, List.cons_append], hspace, hbracket⟩
  | cons next items => exact ⟨c, _, by rw [stringifyItems_cons, hstart, List.cons_append], hspace, hbracket⟩

theorem stringifyFields_starts (field : String × JsonTree) (fields : List (String × JsonTree)) (rest : List Char) :
    ∃ cs, JsonTree.stringifyFields (field :: fields) ++ rest = '"' :: cs := by
  cases fields with
  | nil => exact ⟨_, stringifyFields_singleton ..⟩
  | cons next fields => exact ⟨_, stringifyFields_cons ..⟩

mutual

/-- A value comes back from its text, whatever follows it. -/
theorem parseValue_stringify : ∀ (tree : JsonTree) (fuel : ℕ) (rest : List Char), tree.Valid → EndsNumber rest →
    tree.stringify.length ≤ fuel → parseValue fuel (tree.stringify ++ rest) = some (tree, rest)
  | tree, 0, _, _, _, hfuel => by
    obtain ⟨c, cs, hstart, -⟩ := stringify_starts tree
    rw [hstart] at hfuel
    cases hfuel
  | .null, fuel + 1, rest, _, _, _ => by simp [JsonTree.stringify, parseValue, skipSpace, isJsonSpace]
  | .bool true, fuel + 1, rest, _, _, _ => by simp [JsonTree.stringify, parseValue, skipSpace, isJsonSpace]
  | .bool false, fuel + 1, rest, _, _, _ => by simp [JsonTree.stringify, parseValue, skipSpace, isJsonSpace]
  | .number n, fuel + 1, rest, hvalid, hrest, _ => by
    rw [JsonTree.Valid] at hvalid
    rw [JsonTree.stringify, parseValue_number, parseNumber_append hvalid hrest]
  | .text s, fuel + 1, rest, _, _, _ => by
    simp [JsonTree.stringify, quoteText, parseValue, skipSpace, isJsonSpace, parseText_quoted]
  | .array [], fuel + 1, rest, _, _, _ => by
    simp [JsonTree.stringify, JsonTree.stringifyItems, parseValue, skipSpace, isJsonSpace]
  | .array (item :: items), fuel + 1, rest, hvalid, _, hfuel => by
    rw [JsonTree.Valid] at hvalid
    rw [JsonTree.stringify, List.length_cons] at hfuel
    have hitems := parseItems_stringify item items fuel rest hvalid (by omega)
    obtain ⟨c, cs, hstart, hspace, hbracket⟩ := stringifyItems_starts item items rest
    rw [hstart] at hitems
    rw [JsonTree.stringify, List.cons_append, hstart, parseValue, skipSpace_cons (by decide)]
    simp only [skipSpace_cons hspace]
    split
    · next heq => exact absurd (List.cons.inj heq).1 hbracket
    · rw [hitems]
      rfl
  | .object [], fuel + 1, rest, _, _, _ => by
    simp [JsonTree.stringify, JsonTree.stringifyFields, parseValue, skipSpace, isJsonSpace]
  | .object (field :: fields), fuel + 1, rest, hvalid, _, hfuel => by
    rw [JsonTree.Valid] at hvalid
    rw [JsonTree.stringify, List.length_cons] at hfuel
    have hfields := parseFields_stringify field fields fuel rest hvalid (by omega)
    obtain ⟨cs, hstart⟩ := stringifyFields_starts field fields rest
    rw [hstart] at hfields
    rw [JsonTree.stringify, List.cons_append, hstart, parseValue, skipSpace_cons (by decide)]
    simp only [skipSpace_cons (show isJsonSpace '"' = false by decide)]
    split
    · next heq => exact absurd (List.cons.inj heq).1 (by decide)
    · rw [hfields]
      rfl

theorem parseItems_stringify : ∀ (item : JsonTree) (items : List JsonTree) (fuel : ℕ) (rest : List Char),
    JsonTree.ValidItems (item :: items) → (JsonTree.stringifyItems (item :: items)).length ≤ fuel →
    parseItems fuel (JsonTree.stringifyItems (item :: items) ++ rest) = some (item :: items, rest)
  | item, items, 0, _, _, hfuel => by
    obtain ⟨c, cs, hstart, -⟩ := stringifyItems_starts item items []
    rw [List.append_nil] at hstart
    rw [hstart] at hfuel
    cases hfuel
  | item, [], fuel + 1, rest, hvalid, hfuel => by
    rw [JsonTree.ValidItems] at hvalid
    rw [JsonTree.stringifyItems, List.length_append, List.length_singleton] at hfuel
    have hitem := parseValue_stringify item fuel (']' :: rest) hvalid.1 (endsNumber_cons (by decide)) (by omega)
    rw [JsonTree.stringifyItems, List.append_assoc, List.singleton_append, parseItems, hitem]
    simp only [Option.bind_eq_bind, Option.bind_some, skipSpace_cons (show isJsonSpace ']' = false by decide)]
  | item, next :: items, fuel + 1, rest, hvalid, hfuel => by
    rw [JsonTree.ValidItems] at hvalid
    have hlength := congrArg List.length (stringifyItems_cons item next items [])
    simp only [List.append_nil, List.length_append, List.length_cons] at hlength
    have hitem := parseValue_stringify item fuel (',' :: (JsonTree.stringifyItems (next :: items) ++ rest)) hvalid.1
      (endsNumber_cons (by decide)) (by omega)
    have hitems := parseItems_stringify next items fuel rest hvalid.2 (by omega)
    rw [stringifyItems_cons, parseItems, hitem]
    simp only [Option.bind_eq_bind, Option.bind_some, skipSpace_cons (show isJsonSpace ',' = false by decide), hitems]

theorem parseFields_stringify : ∀ (field : String × JsonTree) (fields : List (String × JsonTree)) (fuel : ℕ)
    (rest : List Char), JsonTree.ValidFields (field :: fields) →
    (JsonTree.stringifyFields (field :: fields)).length ≤ fuel →
    parseFields fuel (JsonTree.stringifyFields (field :: fields) ++ rest) = some (field :: fields, rest)
  | field, fields, 0, _, _, hfuel => by
    obtain ⟨cs, hstart⟩ := stringifyFields_starts field fields []
    rw [List.append_nil] at hstart
    rw [hstart] at hfuel
    cases hfuel
  | (key, value), [], fuel + 1, rest, hvalid, hfuel => by
    rw [JsonTree.ValidFields] at hvalid
    have hlength := congrArg List.length (stringifyFields_singleton (key, value) [])
    simp only [List.append_nil, List.length_append, List.length_cons] at hlength
    have hvalue := parseValue_stringify value fuel ('\x7d' :: rest) hvalid.1 (endsNumber_cons (by decide)) (by omega)
    rw [stringifyFields_singleton, parseFields, skipSpace_cons (by decide)]
    simp only [Option.bind_eq_bind, parseText_quoted, Option.bind_some,
      skipSpace_cons (show isJsonSpace ':' = false by decide), hvalue,
      skipSpace_cons (show isJsonSpace '\x7d' = false by decide), String.ofList_toList]
  | (key, value), next :: fields, fuel + 1, rest, hvalid, hfuel => by
    rw [JsonTree.ValidFields] at hvalid
    have hlength := congrArg List.length (stringifyFields_cons (key, value) next fields [])
    simp only [List.append_nil, List.length_append, List.length_cons] at hlength
    have hvalue := parseValue_stringify value fuel (',' :: (JsonTree.stringifyFields (next :: fields) ++ rest)) hvalid.1
      (endsNumber_cons (by decide)) (by omega)
    have hfields := parseFields_stringify next fields fuel rest hvalid.2 (by omega)
    rw [stringifyFields_cons, parseFields, skipSpace_cons (by decide)]
    simp only [Option.bind_eq_bind, parseText_quoted, Option.bind_some,
      skipSpace_cons (show isJsonSpace ':' = false by decide), hvalue,
      skipSpace_cons (show isJsonSpace ',' = false by decide), hfields, String.ofList_toList]

end

/-- What was written is read back. -/
theorem parseJson_stringify {tree : JsonTree} (h : tree.Valid) : parseJson (.ofList tree.stringify) = some tree := by
  have hread := parseValue_stringify tree (tree.stringify.length + 1) [] h (fun _ hc => nomatch hc) (by omega)
  rw [List.append_nil] at hread
  rw [parseJson, String.toList_ofList, hread]
  rfl

/-- A stored result is no corrupted entry. -/
theorem parseJsonSafe_storedText {tree : JsonTree} (h : tree.Valid) (fallback : JsonTree) :
    parseJsonSafe (storedText (some tree)) fallback = tree := by
  rw [parseJsonSafe, storedText, parseJson_stringify h, Option.getD_some]

end Kumiko
