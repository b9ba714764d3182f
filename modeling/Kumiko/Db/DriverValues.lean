import Kumiko.Auth.SignedTokens
import Kumiko.Crypto.PiiFieldEncryption
import Kumiko.Library.CalendarDays
import Kumiko.Pipeline.JsonText

/-!
# Values through the driver

`db/driver-value-preparation.ts` turns a value into what the driver binds for a column,
`db/driver-row-coercion.ts` what the driver returns into what a caller gets. `Host` is the language and
`Database` Postgres behind its driver; what is known of them is in `Host.Lawful` and `Database.Lawful`.
`driverValue_kept_iff` says which values come back in their canonical form.
-/

namespace Kumiko.DriverValues

open CalendarDays

/-! ## Values and columns -/

/-- The type of a column. `text` stands for every type that neither table has. -/
inductive PgType where
  | timestamptz | timestamptz3 | date | jsonb
  | bigint | int8 | bigserial | serial
  | integer | int4 | smallint | int2
  | numeric (modifier : String)
  | text
  deriving DecidableEq

inductive BigIntJsMode where
  | number | bigint
  deriving DecidableEq

structure TableInfo where
  pgTypeOf : String → Option PgType
  bigintJsModeOf : String → Option BigIntJsMode
  fieldOf : String → String
  hasColumn : String → Bool

/-- A value on the caller's side. Instants are counted in nanoseconds, and so are the clock readings of the date-times
without an offset. `date` is the `Date` a driver returns. -/
inductive Value where
  | json (tree : JsonTree)
  | nonFinite (text : String)
  | bigint (n : ℤ)
  | instant (instant : ℤ)
  | plainDate (day : PlainDate)
  | plainDateTime (wall : ℤ)
  | zonedDateTime (wall : ℤ) (zone : String)
  | date (epochMs : ℤ)
  | sqlExpr (text : String)

def Value.text (s : String) : Value := .json (.text s)

/-- `String(value)` -/
def NumberText.toText (n : NumberText) : String := .ofList (n.head :: n.tail)

/-- The number of an integer. -/
def numberOfInt : ℤ → NumberText
  | .ofNat n => numberOfNat n
  | .negSucc n => ⟨'-', Nat.toDigits 10 (n + 1), .inl rfl⟩

theorem toText_numberOfInt (n : ℤ) : NumberText.toText (numberOfInt n) = toString n := by
  rw [Int.toString_eq_repr, ← String.toList_inj, NumberText.toText, String.toList_ofList]
  cases n with
  | ofNat n =>
    have hcons : (numberOfNat n).head :: (numberOfNat n).tail = Nat.toDigits 10 n := List.cons_head_tail _
    simp [Int.repr, numberOfInt, hcons]
  | negSucc n => simp [Int.repr, numberOfInt]

/-- `BigInt(text)` of a decimal text. -/
def bigIntOf (text : String) : Option ℤ :=
  if toString (signedDecimal text.toList) = text then some (signedDecimal text.toList) else none

theorem bigIntOf_toString (n : ℤ) : bigIntOf (toString n) = some n := by
  unfold bigIntOf
  simp only [signedDecimal_toString]
  exact if_pos trivial

/-- `Number.isSafeInteger` -/
def IsSafe (n : ℤ) : Prop := -(2 ^ 53 - 1) ≤ n ∧ n ≤ 2 ^ 53 - 1

instance (n : ℤ) : Decidable (IsSafe n) := inferInstanceAs (Decidable (_ ∧ _))

/-- What the code takes from the language: the reading of numbers, and `Temporal`. -/
structure Host where
  /-- `Number(text)`, none where it is NaN. -/
  number : String → Option Value
  instantFrom : String → Option ℤ
  instantText : ℤ → String
  plainDateFrom : String → Option PlainDate
  plainDateTimeText : ℤ → String
  zonedDateTimeText : ℤ → String → String
  dateText : ℤ → String
  /-- The day of an instant in UTC. -/
  utcDay : ℤ → PlainDate

def epochMilliseconds (instant : ℤ) : ℤ := instant / 1000000

def fromEpochMilliseconds (epochMs : ℤ) : ℤ := epochMs * 1000000

theorem epochMilliseconds_from (epochMs : ℤ) : epochMilliseconds (fromEpochMilliseconds epochMs) = epochMs := by
  unfold epochMilliseconds fromEpochMilliseconds
  omega

variable (host : Host)

/-- `JSON.parse(stringifyJson(value))`: the value in the payload of an event. -/
def jsonForm : Value → JsonTree
  | .json tree => tree
  | .nonFinite _ => .null
  | .bigint n => if IsSafe n then .number (numberOfInt n) else .text (toString n)
  | .instant instant => .text (host.instantText instant)
  | .plainDate day => .text day.text
  | .plainDateTime wall => .text (host.plainDateTimeText wall)
  | .zonedDateTime wall zone => .text (host.zonedDateTimeText wall zone)
  | .date epochMs => .text (host.dateText epochMs)
  | .sqlExpr text => .object [("kind", .text "sql-expr"), ("text", .text text)]

/-! ## Binding -/

/-- The cast behind the placeholder. -/
inductive Cast where
  | none | jsonb | textJsonb

inductive PreparedValue where
  | param (sql : Cast) (bound : Value)
  | literal (literal : String)

/-- A value bound as its JSON text. -/
def boundText (tree : JsonTree) : PreparedValue := .param .textJsonb (.text (.ofList tree.stringify))

def prepareDateValue : Value → Option PreparedValue
  | .plainDate day => some (.param .none (.text day.text))
  | .plainDateTime wall => some (.param .none (.text (host.utcDay wall).text))
  | .zonedDateTime wall _ => some (.param .none (.text (host.utcDay wall).text))
  | .instant instant => some (.param .none (.text (host.utcDay instant).text))
  | _ => none

def isBoolean : JsonTree → Bool
  | .bool _ => true
  | _ => false

def prepareJsonbValue : Value → Option PreparedValue
  | .json (.bool b) => some (boundText (.bool b))
  | .json (.number n) => some (boundText (.number n))
  | .json (.text _) | .nonFinite _ | .bigint _ | .instant _ => none
  | .json (.array items) =>
    if 0 < items.length ∧ items.all isBoolean then some (boundText (.array items))
    else some (.param .jsonb (.json (.array items)))
  | value => some (.param .jsonb value)

/-- Reference: `INTEGER_PG_TYPES`. -/
def isIntegerPgType : PgType → Bool
  | .integer | .int4 | .smallint | .int2 | .bigint | .int8 | .serial | .bigserial => true
  | _ => false

def instantToTimestamptzParam (instant : ℤ) : String :=
  host.instantText (fromEpochMilliseconds (epochMilliseconds instant))

def timestamptzInstantOf : Value → Option ℤ
  | .instant instant => some instant
  | .json (.text s) => host.instantFrom s
  | _ => none

/-- The text of a value that is a number. -/
def numberText? : Value → Option String
  | .json (.number n) => some (NumberText.toText n)
  | .nonFinite text => some text
  | _ => none

def prepareDriverNeutralScalar (value : Value) (pgType : PgType) : Option PreparedValue :=
  match if pgType = .timestamptz ∨ pgType = .timestamptz3 then timestamptzInstantOf host value else none with
  | some instant => some (.param .none (.text (instantToTimestamptzParam host instant)))
  | none => if isIntegerPgType pgType then (numberText? value).map fun s => .param .none (.text s) else none

/-- The branch of `prepareValue` for ciphertexts. -/
def prepareCiphertext : Value → Option PreparedValue
  | .json (.text s) => if isPiiCiphertext (.text (.of s) : FieldValue Unit) then some (boundText (.text s)) else none
  | _ => none

def Value.isNull : Value → Bool
  | .json .null => true
  | _ => false

def prepareValue (value : Value) (pgType : PgType) : PreparedValue :=
  match value with
  | .sqlExpr text => .literal text
  | value =>
    let ciphertext := if pgType = .jsonb then prepareCiphertext value else none
    let jsonb := if pgType = .jsonb ∧ !value.isNull then prepareJsonbValue value else none
    let day := if pgType = .date then prepareDateValue host value else none
    (ciphertext <|> jsonb <|> prepareDriverNeutralScalar host value pgType <|> day).getD (.param .none value)

/-! ## Reading back -/

/-- A safe integer becomes a number. -/
def coerceBigIntFromDriver (n : ℤ) : Value := if IsSafe n then .json (.number (numberOfInt n)) else .bigint n

def instantFromDriver : Value → Option ℤ
  | .instant instant => some instant
  | .date epochMs => some (fromEpochMilliseconds epochMs)
  | .json (.text s) => host.instantFrom s
  | .json (.number n) => (bigIntOf (NumberText.toText n)).map fromEpochMilliseconds
  | _ => none

/-- What `/^\d{4}-\d{2}-\d{2}/` finds. -/
def isoDay? (s : String) : Option String :=
  match s.toList with
  | y₁ :: y₂ :: y₃ :: y₄ :: '-' :: m₁ :: m₂ :: '-' :: d₁ :: d₂ :: _ =>
    if [y₁, y₂, y₃, y₄, m₁, m₂, d₁, d₂].all Char.isDigit then
      some (.ofList [y₁, y₂, y₃, y₄, '-', m₁, m₂, '-', d₁, d₂])
    else none
  | _ => none

def plainDateFromDriver : Value → Option PlainDate
  | .plainDate day => some day
  | .json (.text s) => (isoDay? s).bind host.plainDateFrom
  | .date epochMs => some (host.utcDay (fromEpochMilliseconds epochMs))
  | _ => none

def coerceTimestamptz (value : Value) : Value := ((instantFromDriver host value).map .instant).getD value

def coerceDate (value : Value) : Value := ((plainDateFromDriver host value).map .plainDate).getD value

def coerceJsonb : Value → Value
  | .json (.text s) => .json (parseJsonSafe s (.text s))
  | value => value

def coerceBigIntColumn (mode : Option BigIntJsMode) (value : Value) : Value :=
  let n : Option ℤ := match value with
    | .json (.text s) => bigIntOf s
    | .bigint n => some n
    | _ => none
  match n with
  | some n => if mode = some .number then coerceBigIntFromDriver n else .bigint n
  | none => value

def numberUnlessNaN (value : Value) : Value :=
  let n : Option Value := match value with
    | .json (.text s) => host.number s
    | .bigint n => host.number (toString n)
    | _ => none
  n.getD value

/-- The coercer of a type, and the value itself where there is none. Reference: `driverValueCoercerFor`. -/
def coerceDriverValue (pgType : Option PgType) (mode : Option BigIntJsMode) (value : Value) : Value :=
  match pgType with
  | some .timestamptz | some .timestamptz3 => coerceTimestamptz host value
  | some .date => coerceDate host value
  | some .jsonb => coerceJsonb value
  | some .bigint | some .bigserial => coerceBigIntColumn mode value
  | some .integer | some .int4 | some .smallint | some .int2 | some (.numeric _) => numberUnlessNaN host value
  | _ => value

/-- A column that is only looked up. -/
def TableInfo.isBlindIndex (info : TableInfo) (key : String) : Bool :=
  ("_bidx".toList.isSuffixOf key.toList || "Bidx".toList.isSuffixOf key.toList) && info.hasColumn key

def coerceDriverRow (info : TableInfo) (row : List (String × Value)) : List (String × Value) :=
  (row.filter fun p => !info.isBlindIndex p.1).map fun p =>
    (info.fieldOf p.1, coerceDriverValue host (info.pgTypeOf p.1) (info.bigintJsModeOf p.1) p.2)

/-! ## The database and its driver -/

/-- What a column holds. -/
inductive Cell where
  | null
  | timestamptz (instant : ℤ)
  | date (day : PlainDate)
  | bigint (n : ℤ)
  | integer (n : ℤ)
  | numeric (text : String)
  | jsonb (tree : JsonTree)
  | text (s : String)

/-- How Postgres reads the text of a parameter as a value of a type, and what text the driver sends for a value bound
to a jsonb column and for a `Date`. -/
structure Database where
  timestamptzOf : PgType → String → Option ℤ
  dateOf : String → Option PlainDate
  integerOf : PgType → String → Option ℤ
  /-- The text of the decimal, at the scale of the column. -/
  numericOf : String → String → Option String
  jsonbOf : String → Option JsonTree
  jsonbParam : JsonTree → String
  dateParam : ℤ → String

namespace Database

variable (db : Database)

/-- Postgres reads a text by the type of the column. -/
def read (pgType : PgType) (s : String) : Option Cell :=
  match pgType with
  | .timestamptz | .timestamptz3 => (db.timestamptzOf pgType s).map .timestamptz
  | .date => (db.dateOf s).map .date
  | .bigint | .int8 | .bigserial => (db.integerOf pgType s).map .bigint
  | .serial | .integer | .int4 | .smallint | .int2 => (db.integerOf pgType s).map .integer
  | .numeric modifier => (db.numericOf modifier s).map .numeric
  | .jsonb => (db.jsonbOf s).map .jsonb
  | .text => some (.text s)

/-- The text the driver sends of a value, none where it cannot. -/
def paramText (pgType : PgType) : Value → Option String
  | .json tree => if pgType = .jsonb then some (db.jsonbParam tree) else
    match tree with
    | .text s => some s
    | .number n => some (NumberText.toText n)
    | _ => none
  | .nonFinite text => some text
  | .bigint n => some (toString n)
  | .date epochMs => if pgType = .timestamptz ∨ pgType = .timestamptz3 then some (db.dateParam epochMs) else none
  | _ => none

/-- What the column holds after the write, none where the write fails. -/
def store (pgType : PgType) : PreparedValue → Option Cell
  | .literal _ => none
  | .param _ (.json .null) => some .null
  | .param .textJsonb bound => (db.paramText .text bound).bind (db.read .jsonb)
  | .param _ bound => (db.paramText pgType bound).bind (db.read pgType)

end Database

/-- Objects are the same in any order of their keys. -/
inductive Same : JsonTree → JsonTree → Prop
  | refl (tree : JsonTree) : Same tree tree
  | array {xs ys : List JsonTree} (h : List.Forall₂ Same xs ys) : Same (.array xs) (.array ys)
  | object {xs ys zs : List (String × JsonTree)} (h : xs.Perm zs) (hkeys : zs.map Prod.fst = ys.map Prod.fst)
    (hs : List.Forall₂ Same (zs.map Prod.snd) (ys.map Prod.snd)) : Same (.object xs) (.object ys)

/-- What the driver may return for what a column holds: timestamps by the millisecond, days as the `Date` of their
midnight in UTC, jsonb parsed. -/
inductive Returned : Cell → Value → Prop
  | null : Returned .null (.json .null)
  | timestamptz (instant : ℤ) : Returned (.timestamptz instant) (.date (epochMilliseconds instant))
  | timestamptzText (instant : ℤ) : Returned (.timestamptz instant)
      (.text (host.instantText (fromEpochMilliseconds (epochMilliseconds instant))))
  | date {epochMs : ℤ} (h : epochMs % 86400000 = 0) :
      Returned (.date (host.utcDay (fromEpochMilliseconds epochMs))) (.date epochMs)
  | bigint (n : ℤ) : Returned (.bigint n) (.bigint n)
  | bigintText (n : ℤ) : Returned (.bigint n) (.text (toString n))
  | integer (n : ℤ) : Returned (.integer n) (.json (.number (numberOfInt n)))
  | integerBigint (n : ℤ) : Returned (.integer n) (.bigint n)
  | integerText (n : ℤ) : Returned (.integer n) (.text (toString n))
  | numeric (s : String) : Returned (.numeric s) (.text s)
  | jsonb (tree : JsonTree) : Returned (.jsonb tree) (.json tree)
  | text (s : String) : Returned (.text s) (.text s)

/-- Texts are read as what they were written from, and small integers are numbers. -/
structure Host.Lawful : Prop where
  instantFrom : ∀ instant, host.instantFrom (host.instantText instant) = some instant
  instantFromDate : ∀ epochMs, host.instantFrom (host.dateText epochMs) = some (fromEpochMilliseconds epochMs)
  number : ∀ n, IsSafe n → host.number (toString n) = some (.json (.number (numberOfInt n)))
  nan : host.number "NaN" = none

variable (db : Database) {s : String}

/-- Postgres reads a text as the value it is the text of, where it takes it at all. For a day it drops the time behind
it, and takes no text that has both an offset and a zone. The driver sends a string for a jsonb column as it is or as
a JSON string, and a structure as its JSON text, unless it takes it for an array of booleans. -/
structure Database.Lawful : Prop where
  timestamptz : ∀ pgType epochMs instant,
    db.timestamptzOf pgType (host.instantText (fromEpochMilliseconds epochMs)) = some instant →
      instant = fromEpochMilliseconds epochMs
  timestamptzDate : ∀ pgType epochMs, db.timestamptzOf pgType (db.dateParam epochMs) =
    db.timestamptzOf pgType (host.instantText (fromEpochMilliseconds epochMs))
  date : ∀ day day', db.dateOf (PlainDate.text day) = some day' → day' = day
  dateInstant : ∀ instant, db.dateOf (host.instantText instant) = db.dateOf (host.utcDay instant).text
  datePlain : ∀ wall, db.dateOf (host.plainDateTimeText wall) = db.dateOf (host.utcDay wall).text
  dateZoned : ∀ wall zone, db.dateOf (host.zonedDateTimeText wall zone) = none
  integer : ∀ pgType n m, db.integerOf pgType (toString n) = some m → m = n
  integerSafe : ∀ pgType s n, pgType ∈ [.integer, .int4, .smallint, .int2] →
    db.integerOf pgType s = some n → -2 ^ 31 ≤ n ∧ n < 2 ^ 31
  numeric : ∀ modifier text s, db.numericOf modifier text = some s → s ≠ "NaN" → (host.number s).isSome = true
  numericNumber : ∀ modifier n, db.numericOf modifier (NumberText.toText n) ≠ some "NaN"
  jsonb : ∀ (tree tree' : JsonTree), tree.Valid → db.jsonbOf (.ofList tree.stringify) = some tree' → Same tree' tree
  jsonbText : ∀ s tree', db.jsonbOf s = some tree' →
    ∃ tree, parseJson s = some tree ∧ ∀ u, tree' = .text u → tree = .text u
  paramText : ∀ s, db.jsonbParam (.text s) = s ∨ db.jsonbParam (.text s) = .ofList (JsonTree.text s).stringify
  paramObject : ∀ fields, db.jsonbParam (.object fields) = .ofList (JsonTree.object fields).stringify
  paramArray : ∀ items, ¬ (0 < items.length ∧ items.all isBoolean) →
    db.jsonbParam (.array items) = .ofList (JsonTree.array items).stringify

/-! ## What is accepted, and what should come back -/

inductive Kind where
  | instant | day | integer | bigint | decimal | json | text
  deriving DecidableEq

/-- The kind of a column that both tables know. -/
def PgType.kind : PgType → Option Kind
  | .timestamptz | .timestamptz3 => some .instant
  | .date => some .day
  | .integer | .int4 | .smallint | .int2 => some .integer
  | .bigint | .bigserial => some .bigint
  | .numeric _ => some .decimal
  | .jsonb => some .json
  | .text => some .text
  | .int8 | .serial => none

/-- The values that a write takes for a column, as far as Postgres does. -/
def Accepts : Kind → Value → Prop
  | .json, .json tree => tree.Valid
  | _, .json .null => True
  | .instant, .instant _ | .instant, .json (.text _) | .instant, .date _ => True
  | .day, .plainDate _ | .day, .plainDateTime _ | .day, .zonedDateTime _ _ | .day, .instant _
  | .day, .json (.text _) => True
  | .integer, .bigint _ | .bigint, .bigint _ | .integer, .json (.text _) | .bigint, .json (.text _) => True
  | .integer, .json (.number x) | .bigint, .json (.number x) => ∃ n, x = numberOfInt n
  | .decimal, .json (.number _) | .decimal, .json (.text _) | .decimal, .bigint _ | .decimal, .nonFinite _ => True
  | .text, .json (.text _) => True
  | _, _ => False

/-- The instant of a value; of a text that is no ISO instant, the one that Postgres reads. -/
def instantOf (pgType : PgType) : Value → Option ℤ
  | .instant instant => some instant
  | .date epochMs => some (fromEpochMilliseconds epochMs)
  | .json (.text s) => (host.instantFrom s).or (db.timestamptzOf pgType s)
  | _ => none

def dayOf : Value → Option PlainDate
  | .plainDate day => some day
  | .plainDateTime wall | .zonedDateTime wall _ | .instant wall => some (host.utcDay wall)
  | .json (.text s) => db.dateOf s
  | _ => none

/-- The integer of a value; of a text, the one that Postgres reads. -/
def integerOf (pgType : PgType) : Value → Option ℤ
  | .bigint n => some n
  | .json (.number x) => bigIntOf (NumberText.toText x)
  | .json (.text s) => db.integerOf pgType s
  | _ => none

/-- The text a decimal is bound as. -/
def decimalText : Value → Option String
  | .json (.number x) => some (NumberText.toText x)
  | .json (.text s) => some s
  | .bigint n => some (toString n)
  | _ => none

/-- The number of the decimal that the column holds. -/
def decimalOf : PgType → Value → Option Value
  | .numeric modifier, value => ((decimalText value).bind (db.numericOf modifier)).bind host.number
  | _, _ => none

/-- What a caller should get, apart from jsonb. -/
def canonicalForm (pgType : PgType) (mode : Option BigIntJsMode) (kind : Kind) (value : Value) : Option Value :=
  if value.isNull then some value
  else match kind with
    | .instant => (instantOf host db pgType value).map fun i =>
        .instant (fromEpochMilliseconds (epochMilliseconds i))
    | .day => (dayOf host db value).map .plainDate
    | .integer => (integerOf db pgType value).map fun n => .json (.number (numberOfInt n))
    | .bigint => (integerOf db pgType value).map fun n =>
        if mode = some .number ∧ IsSafe n then .json (.number (numberOfInt n)) else .bigint n
    | .decimal => decimalOf host db pgType value
    | .text => some value
    | .json => none

def IsCanonical (pgType : PgType) (mode : Option BigIntJsMode) (kind : Kind) (value read : Value) : Prop :=
  match kind, value with
  | .json, .json tree => ∃ tree', read = .json tree' ∧ Same tree' tree
  | kind, value => canonicalForm host db pgType mode kind value = some read

/-- Whatever row the driver returns with the column in it, a caller gets the canonical form of the value; and the value
in the payload of an event is bound to what the column holds. -/
def Kept (info : TableInfo) (key : String) (pgType : PgType) (kind : Kind) (value : Value) (cell : Cell) : Prop :=
  (∀ row returned, (key, returned) ∈ row → Returned host cell returned →
    ∃ read, (info.fieldOf key, read) ∈ coerceDriverRow host info row ∧
      IsCanonical host db pgType (info.bigintJsModeOf key) kind value read) ∧
  db.store pgType (prepareValue host (.json (jsonForm host value)) pgType) = some cell

/-- A string for jsonb is no JSON text, a number is finite, the text of a decimal is not that of NaN, and a date-time
for a day has no zone. -/
def KeepsForm : PgType → Value → Prop
  | .jsonb, .json (.text s) => parseJson s = none
  | .numeric _, .nonFinite _ => False
  | .numeric modifier, .json (.text s) => db.numericOf modifier s ≠ some "NaN"
  | .date, .zonedDateTime _ _ => False
  | _, _ => True

/-! ## JSON text in a string -/

theorem parseUnits_length : ∀ {cs : List Char} {out : List ℕ} {rest : List Char}, parseUnits cs = some (out, rest) →
    out.length + rest.length < cs.length := by
  intro cs
  fun_induction parseUnits cs <;> intro out rest h
  case case1 | case5 => cases h
  case case2 tail =>
    cases h
    simp
  case case3 ih | case4 ih =>
    obtain ⟨char, -, hmap⟩ := Option.bind_eq_some_iff.1 h
    obtain ⟨⟨out', rest'⟩, hread, heq⟩ := Option.map_eq_some_iff.1 hmap
    cases heq
    have hle := ih hread
    simp only [List.length_cons]
    omega
  case case6 ih =>
    obtain ⟨⟨out', rest'⟩, hread, heq⟩ := Option.map_eq_some_iff.1 h
    cases heq
    have hle := ih hread
    simp only [List.length_cons]
    omega

theorem length_joinSurrogates (units : List ℕ) : (joinSurrogates units).length ≤ units.length := by
  fun_induction joinSurrogates units with
  | case1 | case2 => exact le_rfl
  | case3 high low units char hpair ih | case4 high low units hpair ih =>
    simp only [List.length_cons] at ih ⊢
    omega

/-- A JSON string is longer than what it stands for. -/
theorem parseText_length {cs out rest : List Char} (h : parseText cs = some (out, rest)) :
    out.length + rest.length < cs.length := by
  obtain ⟨⟨units, rest'⟩, hunits, heq⟩ := Option.map_eq_some_iff.1 h
  cases heq
  have hlt := parseUnits_length hunits
  have hle := length_joinSurrogates units
  dsimp only
  omega

theorem length_skipSpace (cs : List Char) : (skipSpace cs).length ≤ cs.length := List.length_dropWhile_le _ _

/-- A text that a value is read as has the quotes of the text around it. -/
theorem parseValue_text_length {fuel : ℕ} {cs rest : List Char} {u : String}
    (h : parseValue fuel cs = some (.text u, rest)) : u.toList.length < cs.length := by
  cases fuel with
  | zero => cases h
  | succ fuel =>
    have hskip := length_skipSpace cs
    rw [parseValue] at h
    split at h
    · cases h
    · cases h
    · cases h
    · next tail hcs =>
      obtain ⟨⟨out, rest'⟩, hread, heq⟩ := Option.map_eq_some_iff.1 h
      cases heq
      have hlt := parseText_length hread
      rw [hcs, List.length_cons] at hskip
      rw [String.toList_ofList]
      change out.length < cs.length
      omega
    · split at h
      · cases h
      · obtain ⟨p, -, heq⟩ := Option.map_eq_some_iff.1 h
        cases heq
    · split at h
      · cases h
      · obtain ⟨p, -, heq⟩ := Option.map_eq_some_iff.1 h
        cases heq
    · rw [parseNumber] at h
      split at h
      · cases h
      · split at h
        · split at h <;> cases h
        · cases h

theorem length_lt_of_parseJson {s u : String} (h : parseJson s = some (.text u)) :
    u.toList.length < s.toList.length := by
  rw [parseJson] at h
  split at h
  · next tree rest hread =>
    split at h
    · cases h
      exact parseValue_text_length hread
    · cases h
  · cases h

/-- What is read of a string is never the string. -/
theorem parseJson_ne_self (s : String) : parseJson s ≠ some (.text s) := fun h =>
  absurd (length_lt_of_parseJson h) (Nat.lt_irrefl _)

/-! ## Rows -/

section
variable {host} {info : TableInfo} {key : String} {value : Value}

theorem mem_coerceDriverRow {row : List (String × Value)} (hkey : info.isBlindIndex key = false)
    (h : (key, value) ∈ row) :
    (info.fieldOf key, coerceDriverValue host (info.pgTypeOf key) (info.bigintJsModeOf key) value) ∈
      coerceDriverRow host info row :=
  List.mem_map.2 ⟨(key, value), List.mem_filter.2 ⟨h, by rw [hkey]; rfl⟩, rfl⟩

theorem coerceDriverRow_singleton (hkey : info.isBlindIndex key = false) :
    coerceDriverRow host info [(key, value)] =
      [(info.fieldOf key, coerceDriverValue host (info.pgTypeOf key) (info.bigintJsModeOf key) value)] := by
  simp [coerceDriverRow, hkey]

variable {db : Database} {pgType : PgType} {kind : Kind} {cell : Cell}

/-- A value is kept exactly if that is so of what its own column is read as. -/
theorem kept_iff_value (hkey : info.isBlindIndex key = false) (htype : info.pgTypeOf key = some pgType) :
    Kept host db info key pgType kind value cell ↔
      (∀ returned, Returned host cell returned → IsCanonical host db pgType (info.bigintJsModeOf key) kind value
        (coerceDriverValue host (some pgType) (info.bigintJsModeOf key) returned)) ∧
      db.store pgType (prepareValue host (.json (jsonForm host value)) pgType) = some cell := by
  refine and_congr_left fun _ => ⟨fun h returned hret => ?_, fun h row returned hmem hret => ?_⟩
  · obtain ⟨read, hread, hcan⟩ := h [(key, returned)] returned (List.mem_singleton_self _) hret
    rw [coerceDriverRow_singleton hkey, List.mem_singleton, Prod.mk.injEq] at hread
    rw [← htype, ← hread.2]
    exact hcan
  · refine ⟨_, mem_coerceDriverRow hkey hmem, ?_⟩
    rw [htype]
    exact h returned hret

end

/-! ## Column by column -/

section
variable {kind : Kind}

variable {host} {db} {pgType : PgType} {mode : Option BigIntJsMode} {value : Value} {cell : Cell} {tree : JsonTree}

/-- `Kept` for the column alone. -/
def KeptValue (host : Host) (db : Database) (pgType : PgType) (mode : Option BigIntJsMode) (kind : Kind)
    (value : Value) (cell : Cell) : Prop :=
  (∀ returned, Returned host cell returned →
    IsCanonical host db pgType mode kind value (coerceDriverValue host (some pgType) mode returned)) ∧
  db.store pgType (prepareValue host (.json (jsonForm host value)) pgType) = some cell

theorem eq_null_of_isNull (h : value.isNull = true) : value = .json .null := by
  cases value with
  | json tree => cases tree <;> first | rfl | cases h
  | _ => cases h

theorem prepareValue_null : prepareValue host (.json .null) pgType = .param .none (.json .null) := by
  cases pgType <;> rfl

theorem coerceDriverValue_null : coerceDriverValue host (some pgType) mode (.json .null) = .json .null := by
  cases pgType <;> rfl

/-- NULL is kept in every column. -/
theorem keptValue_null (h : db.store pgType (prepareValue host (.json .null) pgType) = some cell) :
    KeptValue host db pgType mode kind (.json .null) cell := by
  refine ⟨fun returned hret => ?_, h⟩
  rw [prepareValue_null, Database.store] at h
  cases h
  cases hret
  rw [coerceDriverValue_null]
  cases kind with
  | json => exact ⟨.null, rfl, .refl _⟩
  | _ => rfl

/-! ### Instants -/

/-- What is prepared for a column that is neither a day nor jsonb. -/
theorem prepareValue_scalar (hdate : pgType ≠ .date) (hjsonb : pgType ≠ .jsonb) (hexpr : ∀ s, value ≠ .sqlExpr s) :
    prepareValue host value pgType = (prepareDriverNeutralScalar host value pgType).getD (.param .none value) := by
  cases value with
  | sqlExpr s => exact absurd rfl (hexpr s)
  | _ => simp [prepareValue, hdate, hjsonb]

theorem prepareValue_instant (hkind : pgType.kind = some .instant) {instant : ℤ}
    (h : timestamptzInstantOf host value = some instant) :
    prepareValue host value pgType = .param .none (.text (instantToTimestamptzParam host instant)) := by
  have hexpr : ∀ s, value ≠ .sqlExpr s := fun s heq => by rw [heq] at h; cases h
  cases pgType <;> cases hkind <;>
    rw [prepareValue_scalar (by decide) (by decide) hexpr] <;> simp [prepareDriverNeutralScalar, h]

theorem prepareValue_notInstant (hkind : pgType.kind = some .instant) (h : host.instantFrom s = none) :
    prepareValue host (.text s) pgType = .param .none (.text s) := by
  have hexpr : ∀ s', Value.text s ≠ .sqlExpr s' := fun s' heq => by cases heq
  cases pgType <;> cases hkind <;>
    rw [prepareValue_scalar (by decide) (by decide) hexpr] <;>
      simp [prepareDriverNeutralScalar, Value.text, timestamptzInstantOf, h, isIntegerPgType]

theorem store_instant (hkind : pgType.kind = some .instant) (s : String) :
    db.store pgType (.param .none (.text s)) = (db.timestamptzOf pgType s).map .timestamptz := by
  cases pgType <;> cases hkind <;> rfl

theorem coerceDriverValue_instant (hhost : host.Lawful) (hkind : pgType.kind = some .instant) {instant : ℤ}
    {returned : Value} (h : Returned host (.timestamptz instant) returned) :
    coerceDriverValue host (some pgType) mode returned =
      .instant (fromEpochMilliseconds (epochMilliseconds instant)) := by
  have htext := hhost.instantFrom (fromEpochMilliseconds (epochMilliseconds instant))
  cases h <;> cases pgType <;> cases hkind <;>
    simp [coerceDriverValue, coerceTimestamptz, instantFromDriver, Value.text, htext]

/-- An instant is cut to milliseconds, whether it comes as one or as its text. -/
theorem keptValue_instant (hhost : host.Lawful) (hdb : db.Lawful host) (hkind : pgType.kind = some .instant)
    (hacc : Accepts .instant value) (h : db.store pgType (prepareValue host value pgType) = some cell) :
    KeptValue host db pgType mode .instant value cell := by
  -- what Postgres makes of the parameter of an instant
  have hread {i j : ℤ} (hj : db.timestamptzOf pgType (instantToTimestamptzParam host i) = some j) :
      fromEpochMilliseconds (epochMilliseconds j) = fromEpochMilliseconds (epochMilliseconds i) := by
    rw [hdb.timestamptz _ _ _ hj, epochMilliseconds_from]
  cases value with
  | json tree =>
    cases tree with
    | null => exact keptValue_null h
    | text s =>
      refine ⟨fun returned hret => ?_, h⟩
      cases hs : host.instantFrom s with
      | none =>
        rw [← Value.text, prepareValue_notInstant hkind hs, store_instant hkind] at h
        obtain ⟨j, hj, rfl⟩ := Option.map_eq_some_iff.1 h
        rw [coerceDriverValue_instant hhost hkind hret]
        simp [IsCanonical, canonicalForm, Value.isNull, instantOf, hs, hj]
      | some i =>
        have hval : timestamptzInstantOf host (.json (.text s)) = some i := hs
        rw [prepareValue_instant hkind hval, store_instant hkind] at h
        obtain ⟨j, hj, rfl⟩ := Option.map_eq_some_iff.1 h
        rw [coerceDriverValue_instant hhost hkind hret]
        simp [IsCanonical, canonicalForm, Value.isNull, instantOf, hs, hread hj]
    | _ => cases hacc
  | date epochMs =>
    -- the driver takes a `Date` as it is, and an event has its text
    have hval : timestamptzInstantOf host (.json (jsonForm host (.date epochMs))) =
        some (fromEpochMilliseconds epochMs) := hhost.instantFromDate epochMs
    have hstore : db.store pgType (prepareValue host (.date epochMs) pgType) =
        db.store pgType (prepareValue host (.json (jsonForm host (.date epochMs))) pgType) := by
      rw [prepareValue_instant hkind hval, store_instant hkind, instantToTimestamptzParam, epochMilliseconds_from,
        ← hdb.timestamptzDate]
      cases pgType <;> cases hkind <;> rfl
    rw [hstore] at h
    refine ⟨fun returned hret => ?_, h⟩
    rw [prepareValue_instant hkind hval, store_instant hkind] at h
    obtain ⟨j, hj, rfl⟩ := Option.map_eq_some_iff.1 h
    rw [coerceDriverValue_instant hhost hkind hret]
    simp [IsCanonical, canonicalForm, Value.isNull, instantOf, hread hj]
  | instant i =>
    have hval : timestamptzInstantOf host (.json (jsonForm host (.instant i))) = some i := hhost.instantFrom i
    have hform : prepareValue host (.json (jsonForm host (.instant i))) pgType =
        prepareValue host (.instant i) pgType := by
      rw [prepareValue_instant hkind hval, prepareValue_instant hkind rfl]
    refine ⟨fun returned hret => ?_, hform ▸ h⟩
    rw [prepareValue_instant hkind rfl, store_instant hkind] at h
    obtain ⟨j, hj, rfl⟩ := Option.map_eq_some_iff.1 h
    rw [coerceDriverValue_instant hhost hkind hret]
    simp [IsCanonical, canonicalForm, Value.isNull, instantOf, hread hj]
  | _ => cases hacc

/-! ### Days -/

theorem store_day (s : String) : db.store .date (.param .none (.text s)) = (db.dateOf s).map .date := rfl

theorem coerceDriverValue_day {day : PlainDate} {returned : Value} (h : Returned host (.date day) returned) :
    coerceDriverValue host (some .date) mode returned = .plainDate day := by
  cases h
  rfl

/-- The text a day is bound as. -/
def dayText (host : Host) : Value → Option String
  | .json (.text s) => some s
  | .plainDate day => some day.text
  | .plainDateTime wall | .zonedDateTime wall _ | .instant wall => some (host.utcDay wall).text
  | _ => none

theorem prepareValue_day (h : dayText host value = some s) :
    prepareValue host value .date = .param .none (.text s) := by
  cases value with
  | json tree => cases tree <;> cases h; rfl
  | _ => cases h <;> rfl

/-- The JSON text of a value for a day is read as the same day, unless it names a zone. -/
theorem dateOf_jsonForm (hdb : db.Lawful host) (h : dayText host value = some s) :
    ∃ s', jsonForm host value = .text s' ∧
      ((∀ wall zone, value ≠ .zonedDateTime wall zone) → db.dateOf s' = db.dateOf s) := by
  cases value with
  | json tree =>
    cases tree <;> cases h
    exact ⟨_, rfl, fun _ => rfl⟩
  | plainDate day => cases h; exact ⟨_, rfl, fun _ => rfl⟩
  | plainDateTime wall => cases h; exact ⟨_, rfl, fun _ => hdb.datePlain wall⟩
  | zonedDateTime wall zone => exact ⟨_, rfl, fun hne => absurd rfl (hne wall zone)⟩
  | instant i => cases h; exact ⟨_, rfl, fun _ => hdb.dateInstant i⟩
  | _ => cases h

/-- The day that the column holds is that of the value. -/
theorem dayOf_of_dateOf (hdb : db.Lawful host) {day : PlainDate} (h : dayText host value = some s)
    (hday : db.dateOf s = some day) : dayOf host db value = some day := by
  cases value with
  | json tree => cases tree <;> cases h; exact hday
  | plainDate | plainDateTime | zonedDateTime | instant =>
    cases h
    rw [dayOf, hdb.date _ _ hday]
  | _ => cases h

theorem exists_dayText (hacc : Accepts .day value) (hnull : value.isNull = false) :
    ∃ s, dayText host value = some s := by
  cases value with
  | json tree =>
    cases tree with
    | null => cases hnull
    | text s => exact ⟨s, rfl⟩
    | _ => cases hacc
  | plainDate | plainDateTime | zonedDateTime | instant => exact ⟨_, rfl⟩
  | _ => cases hacc

/-- A day is kept exactly if it does not come with a zone. -/
theorem keptValue_day_iff (hdb : db.Lawful host) (hacc : Accepts .day value)
    (h : db.store .date (prepareValue host value .date) = some cell) :
    KeptValue host db .date mode .day value cell ↔ KeepsForm db .date value := by
  by_cases hnull : value.isNull = true
  · obtain rfl := eq_null_of_isNull hnull
    exact iff_of_true (keptValue_null h) trivial
  rw [Bool.not_eq_true] at hnull
  obtain ⟨s, hs⟩ := exists_dayText hacc hnull
  rw [prepareValue_day hs, store_day] at h
  obtain ⟨day, hday, rfl⟩ := Option.map_eq_some_iff.1 h
  obtain ⟨s', hform, hsame⟩ := dateOf_jsonForm hdb hs
  have hstored : db.store .date (prepareValue host (.json (jsonForm host value)) .date) = (db.dateOf s').map .date := by
    rw [hform, prepareValue_day rfl, store_day]
  have hcan : canonicalForm host db .date mode .day value = some (.plainDate day) := by
    simp [canonicalForm, hnull, dayOf_of_dateOf hdb hs hday]
  constructor
  · rintro ⟨-, hreplay⟩
    rw [hstored] at hreplay
    cases value with
    | zonedDateTime wall zone =>
      cases hform
      rw [hdb.dateZoned] at hreplay
      cases hreplay
    | _ => trivial
  · intro hkeeps
    refine ⟨fun returned hret => ?_, ?_⟩
    · rw [coerceDriverValue_day hret]
      exact hcan
    · rw [hstored, hsame fun wall zone heq => by rw [heq] at hkeeps; exact hkeeps, hday]
      rfl

/-! ### Integers -/

/-- The value is the integer, or its decimal text. -/
inductive Denotes (n : ℤ) : Value → Prop
  | number : Denotes n (.json (.number (numberOfInt n)))
  | bigint : Denotes n (.bigint n)
  | text : Denotes n (.text (toString n))

theorem denotes_jsonForm {n : ℤ} (h : Denotes n value) : Denotes n (.json (jsonForm host value)) := by
  cases h with
  | number => exact .number
  | bigint =>
    rw [jsonForm]
    split
    · exact .number
    · exact .text
  | text => exact .text

theorem exists_denotes (hkind : kind = .integer ∨ kind = .bigint) (hacc : Accepts kind value)
    (hnull : value.isNull = false) (htext : ∀ s, value ≠ .text s) :
    ∃ n, Denotes n value ∧ integerOf db pgType value = some n := by
  cases value with
  | json tree =>
    cases tree with
    | null => cases hnull
    | text s => exact absurd rfl (htext s)
    | number x =>
      obtain ⟨n, rfl⟩ : ∃ n, x = numberOfInt n := by rcases hkind with rfl | rfl <;> exact hacc
      exact ⟨n, .number, by rw [integerOf, toText_numberOfInt, bigIntOf_toString]⟩
    | _ => rcases hkind with rfl | rfl <;> cases hacc
  | bigint n => exact ⟨n, .bigint, rfl⟩
  | _ => rcases hkind with rfl | rfl <;> cases hacc

/-- The column gets the text of the value, which for an integer is its decimal text. -/
theorem store_integer (hkind : pgType.kind = some .integer ∨ pgType.kind = some .bigint)
    (h : value = .text s ∨ ∃ n, Denotes n value ∧ s = toString n) :
    db.store pgType (prepareValue host value pgType) = db.read pgType s := by
  have hdate : pgType ≠ .date := fun heq => by rw [heq] at hkind; rcases hkind with h | h <;> cases h
  have hjsonb : pgType ≠ .jsonb := fun heq => by rw [heq] at hkind; rcases hkind with h | h <;> cases h
  have hinteger : isIntegerPgType pgType = true := by
    cases pgType <;> first | rfl | (rcases hkind with h | h <;> cases h)
  have hinstant : ¬ (pgType = .timestamptz ∨ pgType = .timestamptz3) := by
    rintro (heq | heq) <;> rw [heq] at hinteger <;> cases hinteger
  have hexpr : ∀ s, value ≠ .sqlExpr s := by
    rintro s' rfl
    obtain h | ⟨n, hn, -⟩ := h
    · cases h
    · cases hn
  rw [prepareValue_scalar hdate hjsonb hexpr, prepareDriverNeutralScalar, if_neg hinstant, if_pos hinteger]
  obtain rfl | ⟨n, hn, rfl⟩ := h
  · simp [numberText?, Value.text, Database.store, Database.paramText, hjsonb]
  · cases hn <;> simp [numberText?, Value.text, Database.store, Database.paramText, hjsonb, toText_numberOfInt]

theorem coerceDriverValue_bigint (hkind : pgType.kind = some .bigint) {n : ℤ} {returned : Value}
    (h : Returned host (.bigint n) returned) :
    coerceDriverValue host (some pgType) mode returned =
      if mode = some .number ∧ IsSafe n then .json (.number (numberOfInt n)) else .bigint n := by
  have hn := bigIntOf_toString n
  rw [Int.toString_eq_repr] at hn
  by_cases hmode : mode = some .number <;> by_cases hsafe : IsSafe n <;>
    cases h <;> cases pgType <;> cases hkind <;>
      simp [coerceDriverValue, coerceBigIntColumn, coerceBigIntFromDriver, Value.text, hn, hmode, hsafe]

theorem coerceDriverValue_integer (hhost : host.Lawful) (hkind : pgType.kind = some .integer) {n : ℤ} (hn : IsSafe n)
    {returned : Value} (h : Returned host (.integer n) returned) :
    coerceDriverValue host (some pgType) mode returned = .json (.number (numberOfInt n)) := by
  have hnumber := hhost.number n hn
  rw [Int.toString_eq_repr] at hnumber
  cases h <;> cases pgType <;> cases hkind <;> simp [coerceDriverValue, numberUnlessNaN, Value.text, hnumber]

/-- An integer column holds the integer of the value, and is sent the same text out of an event. -/
theorem integer_stored (hdb : db.Lawful host) (hkind : pgType.kind = some kind)
    (hint : kind = .integer ∨ kind = .bigint) (hacc : Accepts kind value) (hnull : value.isNull = false)
    (h : db.store pgType (prepareValue host value pgType) = some cell) :
    ∃ s n, integerOf db pgType value = some n ∧ db.integerOf pgType s = some n ∧
      cell = (if kind = .integer then .integer n else .bigint n) ∧
      db.store pgType (prepareValue host (.json (jsonForm host value)) pgType) = some cell := by
  have hint' : pgType.kind = some .integer ∨ pgType.kind = some .bigint := by
    rcases hint with rfl | rfl <;> simp [hkind]
  have hread {s : String} (hs : db.read pgType s = some cell) : ∃ m, db.integerOf pgType s = some m ∧
      cell = (if kind = .integer then .integer m else .bigint m) := by
    rcases hint with rfl | rfl <;> cases pgType <;> cases hkind <;>
      (obtain ⟨m, hm, rfl⟩ := Option.map_eq_some_iff.1 hs; exact ⟨m, hm, rfl⟩)
  by_cases htext : ∃ s, value = .text s
  · obtain ⟨s, rfl⟩ := htext
    have hsame : Value.json (jsonForm host (.text s)) = .text s := rfl
    rw [hsame, h]
    rw [store_integer hint' (.inl rfl)] at h
    obtain ⟨m, hm, hcell⟩ := hread h
    exact ⟨s, m, hm, hm, hcell, rfl⟩
  · obtain ⟨n, hn, hof⟩ := exists_denotes hint hacc hnull fun s heq => htext ⟨s, heq⟩
    rw [store_integer hint' (.inr ⟨n, hn, rfl⟩)] at h
    rw [store_integer hint' (.inr ⟨n, denotes_jsonForm hn, rfl⟩), h]
    obtain ⟨m, hm, hcell⟩ := hread h
    obtain rfl := hdb.integer _ _ _ hm
    exact ⟨_, m, hof, hm, hcell, rfl⟩

/-- An integer is kept, safe or not. -/
theorem keptValue_integer (hhost : host.Lawful) (hdb : db.Lawful host) (hkind : pgType.kind = some kind)
    (hint : kind = .integer ∨ kind = .bigint) (hacc : Accepts kind value)
    (h : db.store pgType (prepareValue host value pgType) = some cell) :
    KeptValue host db pgType mode kind value cell := by
  cases hnull : value.isNull with
  | true =>
    obtain rfl := eq_null_of_isNull hnull
    exact keptValue_null h
  | false =>
    obtain ⟨s, n, hof, hread, rfl, hreplay⟩ := integer_stored hdb hkind hint hacc hnull h
    refine ⟨fun returned hret => ?_, hreplay⟩
    rcases hint with rfl | rfl
    · have hbound := hdb.integerSafe _ _ _ (by cases pgType <;> cases hkind <;> decide) hread
      rw [coerceDriverValue_integer hhost hkind (by unfold IsSafe; omega) hret]
      simp [IsCanonical, canonicalForm, hnull, hof]
    · rw [coerceDriverValue_bigint hkind hret]
      simp [IsCanonical, canonicalForm, hnull, hof]

/-! ### Decimals and texts -/

theorem store_decimal {modifier s : String} (h : decimalText value = some s) :
    db.store (.numeric modifier) (prepareValue host value (.numeric modifier)) =
      (db.numericOf modifier s).map .numeric := by
  cases value with
  | json tree => cases tree <;> cases h <;> rfl
  | bigint n => cases h; rfl
  | _ => cases h

theorem decimalText_jsonForm (h : decimalText value = some s) :
    decimalText (.json (jsonForm host value)) = some s := by
  cases value with
  | bigint n =>
    cases h
    rw [jsonForm]
    split
    · exact congrArg some (toText_numberOfInt n)
    · rfl
  | json tree => exact h
  | _ => cases h

/-- A decimal is read as the number of what the column holds, unless that is NaN. -/
theorem keptValue_decimalText_iff (hhost : host.Lawful) (hdb : db.Lawful host) {modifier s : String}
    (hnull : value.isNull = false) (hs : decimalText value = some s)
    (h : db.store (.numeric modifier) (prepareValue host value (.numeric modifier)) = some cell) :
    KeptValue host db (.numeric modifier) mode .decimal value cell ↔ db.numericOf modifier s ≠ some "NaN" := by
  rw [store_decimal hs] at h
  obtain ⟨held, hheld, rfl⟩ := Option.map_eq_some_iff.1 h
  have hcan : canonicalForm host db (.numeric modifier) mode .decimal value = host.number held := by
    simp [canonicalForm, hnull, decimalOf, hs, hheld]
  have hcoerce : coerceDriverValue host (some (.numeric modifier)) mode (.text held) =
      (host.number held).getD (.text held) := rfl
  have hiff : KeptValue host db (.numeric modifier) mode .decimal value (.numeric held) ↔
      host.number held = some ((host.number held).getD (.text held)) := by
    refine ⟨fun hkept => ?_, fun hnumber => ⟨fun returned hret => ?_, ?_⟩⟩
    · have hread : canonicalForm host db (.numeric modifier) mode .decimal value = some _ := hkept.1 _ (.numeric held)
      rwa [hcan, hcoerce] at hread
    · cases hret
      rw [hcoerce]
      exact hcan.trans hnumber
    · rw [store_decimal (decimalText_jsonForm hs), hheld]
      rfl
  rw [hiff, hheld]
  by_cases hnan : held = "NaN"
  · subst hnan
    simp [hhost.nan]
  · obtain ⟨x, hx⟩ := Option.isSome_iff_exists.1 (hdb.numeric _ _ _ hheld hnan)
    simp [hx, hnan]

/-- A value is kept in a decimal column exactly if it is finite, or no text of NaN: JSON has no other numbers. -/
theorem keptValue_decimal_iff (hhost : host.Lawful) (hdb : db.Lawful host) {modifier : String}
    (hacc : Accepts .decimal value)
    (h : db.store (.numeric modifier) (prepareValue host value (.numeric modifier)) = some cell) :
    KeptValue host db (.numeric modifier) mode .decimal value cell ↔ KeepsForm db (.numeric modifier) value := by
  cases value with
  | json tree =>
    cases tree with
    | null => exact iff_of_true (keptValue_null h) trivial
    | number x =>
      exact (keptValue_decimalText_iff hhost hdb rfl rfl h).trans (iff_of_true (hdb.numericNumber modifier x) trivial)
    | text s => exact keptValue_decimalText_iff hhost hdb rfl rfl h
    | _ => cases hacc
  | bigint n =>
    refine (keptValue_decimalText_iff hhost hdb rfl rfl h).trans (iff_of_true ?_ trivial)
    rw [← toText_numberOfInt]
    exact hdb.numericNumber modifier _
  | nonFinite s =>
    refine iff_of_false (fun hkept => ?_) id
    obtain ⟨s', -, rfl⟩ := Option.map_eq_some_iff.1 h
    cases hkept.2
  | _ => cases hacc

theorem keptValue_text (hacc : Accepts .text value) (h : db.store .text (prepareValue host value .text) = some cell) :
    KeptValue host db .text mode .text value cell := by
  cases value with
  | json tree =>
    cases tree with
    | null => exact keptValue_null h
    | text s =>
      refine ⟨fun returned hret => ?_, h⟩
      cases h
      cases hret
      rfl
    | _ => cases hacc
  | _ => cases hacc

/-! ### Jsonb -/

theorem eq_of_same_text (h : Same tree (.text s)) : tree = .text s := by
  cases h
  rfl

theorem isCanonical_jsonb {read : Value} :
    IsCanonical host db .jsonb mode .json (.json tree) read ↔ ∃ tree', read = .json tree' ∧ Same tree' tree := .rfl

theorem eq_of_text_same (h : Same (.text s) tree) : tree = .text s := by
  cases h
  rfl

/-- What comes back as a string was one. -/
theorem of_coerceJsonb_text (h : coerceJsonb (.json tree) = .json (.text s)) :
    ∃ u, tree = .text u ∧ (u = s ∧ parseJson u = none ∨ parseJson u = some (.text s)) := by
  cases tree with
  | text u =>
    refine ⟨u, rfl, ?_⟩
    simp only [coerceJsonb, parseJsonSafe, Value.json.injEq] at h
    cases hparse : parseJson u with
    | none =>
      rw [hparse, Option.getD_none] at h
      exact .inl ⟨JsonTree.text.inj h, rfl⟩
    | some tree =>
      rw [hparse, Option.getD_some] at h
      exact .inr (congrArg some h)
  | _ => cases h

/-- A string is stored as one, or as what it is the JSON text of. -/
theorem stored_string (hdb : db.Lawful host) (h : db.store .jsonb (prepareValue host (.text s) .jsonb) = some cell) :
    ∃ tree', cell = .jsonb tree' ∧
      (tree' = .text s ∨ ∃ tree, parseJson s = some tree ∧ ∀ u, tree' = .text u → tree = .text u) := by
  have hquoted {tree' : JsonTree} (hread : db.jsonbOf (.ofList (JsonTree.text s).stringify) = some tree') :
      tree' = .text s := eq_of_same_text (hdb.jsonb _ _ trivial hread)
  cases hcipher : isPiiCiphertext (.text (.of s) : FieldValue Unit) with
  | true =>
    have hprep : prepareValue host (.text s) .jsonb = boundText (.text s) := by
      simp [prepareValue, Value.text, prepareCiphertext, hcipher]
    rw [hprep] at h
    obtain ⟨tree', hread, rfl⟩ := Option.map_eq_some_iff.1 h
    exact ⟨tree', rfl, .inl (hquoted hread)⟩
  | false =>
    have hprep : prepareValue host (.text s) .jsonb = .param .none (.text s) := by
      simp [prepareValue, Value.text, prepareCiphertext, hcipher, prepareJsonbValue, prepareDriverNeutralScalar,
        isIntegerPgType]
    rw [hprep] at h
    obtain ⟨tree', hread, rfl⟩ := Option.map_eq_some_iff.1 h
    rcases hdb.paramText s with hparam | hparam <;> rw [hparam] at hread
    · exact ⟨tree', rfl, .inr (hdb.jsonbText s tree' hread)⟩
    · exact ⟨tree', rfl, .inl (hquoted hread)⟩

/-- A string is read as JSON once more, and kept exactly if it is no JSON text. -/
theorem keptValue_string_iff (hdb : db.Lawful host)
    (h : db.store .jsonb (prepareValue host (.text s) .jsonb) = some cell) :
    KeptValue host db .jsonb mode .json (.text s) cell ↔ parseJson s = none := by
  obtain ⟨tree', rfl, hstored⟩ := stored_string hdb h
  constructor
  · rintro ⟨hread, -⟩
    obtain ⟨tree, hcoerced, hsame⟩ := isCanonical_jsonb.1 (hread _ (.jsonb tree'))
    rw [eq_of_same_text hsame] at hcoerced
    obtain ⟨u, rfl, hu⟩ := of_coerceJsonb_text hcoerced
    rcases hstored with hs | ⟨tree, hparse, htext⟩
    · obtain rfl := JsonTree.text.inj hs
      rcases hu with ⟨-, hnone⟩ | hself
      · exact hnone
      · exact absurd hself (parseJson_ne_self u)
    · -- the string was taken for the JSON text of a shorter one
      obtain rfl := htext u rfl
      have hlt := length_lt_of_parseJson hparse
      rcases hu with ⟨rfl, -⟩ | hback
      · exact absurd hlt (Nat.lt_irrefl _)
      · exact absurd (length_lt_of_parseJson hback) hlt.le.not_gt
  · intro hnone
    rcases hstored with rfl | ⟨tree, hparse, -⟩
    · refine ⟨fun returned hret => ?_, h⟩
      cases hret
      refine isCanonical_jsonb.2 ⟨.text s, ?_, .refl _⟩
      simp [coerceDriverValue, coerceJsonb, parseJsonSafe, hnone]
    · rw [hnone] at hparse
      cases hparse

theorem store_structured (hdb : db.Lawful host) (hnull : tree ≠ .null) (htext : ∀ s, tree ≠ .text s) :
    db.store .jsonb (prepareValue host (.json tree) .jsonb) = (db.jsonbOf (.ofList tree.stringify)).map .jsonb := by
  cases tree with
  | null => exact absurd rfl hnull
  | text s => exact absurd rfl (htext s)
  | bool b => rfl
  | number n => rfl
  | array items =>
    by_cases hbool : 0 < items.length ∧ items.all isBoolean = true
    · have hprep : prepareValue host (.json (.array items)) .jsonb = boundText (.array items) := by
        simp only [prepareValue, prepareCiphertext, prepareJsonbValue, if_pos hbool]
        rfl
      rw [hprep]
      rfl
    · have hprep : prepareValue host (.json (.array items)) .jsonb = .param .jsonb (.json (.array items)) := by
        simp only [prepareValue, prepareCiphertext, prepareJsonbValue, if_neg hbool]
        rfl
      rw [hprep, ← hdb.paramArray items hbool]
      rfl
  | object fields =>
    rw [← hdb.paramObject fields]
    rfl

/-- A value for jsonb is kept, unless it is a string that is JSON text. -/
theorem keptValue_json_iff (hdb : db.Lawful host) (hacc : Accepts .json value)
    (h : db.store .jsonb (prepareValue host value .jsonb) = some cell) :
    KeptValue host db .jsonb mode .json value cell ↔ KeepsForm db .jsonb value := by
  have hstructured {tree : JsonTree} (hvalid : tree.Valid) (hnull : tree ≠ .null) (htext : ∀ s, tree ≠ .text s)
      (h : db.store .jsonb (prepareValue host (.json tree) .jsonb) = some cell) :
      KeptValue host db .jsonb mode .json (.json tree) cell := by
    refine ⟨fun returned hret => ?_, h⟩
    rw [store_structured hdb hnull htext] at h
    obtain ⟨tree', hread, rfl⟩ := Option.map_eq_some_iff.1 h
    have hsame := hdb.jsonb _ _ hvalid hread
    cases hret
    refine isCanonical_jsonb.2 ⟨tree', ?_, hsame⟩
    cases tree' with
    | text u => exact absurd (eq_of_text_same hsame) (htext u)
    | _ => rfl
  cases value with
  | json tree =>
    cases tree with
    | null => exact iff_of_true (keptValue_null h) trivial
    | text s => exact keptValue_string_iff hdb h
    | _ => exact iff_of_true (hstructured hacc nofun nofun h) trivial
  | _ => cases hacc

/-- Column by column, a value is kept exactly if it keeps its form. -/
theorem keptValue_iff (hhost : host.Lawful) (hdb : db.Lawful host) (hkind : pgType.kind = some kind)
    (hacc : Accepts kind value) (h : db.store pgType (prepareValue host value pgType) = some cell) :
    KeptValue host db pgType mode kind value cell ↔ KeepsForm db pgType value := by
  cases pgType <;> cases hkind
  case timestamptz | timestamptz3 => exact iff_of_true (keptValue_instant hhost hdb rfl hacc h) trivial
  case date => exact keptValue_day_iff hdb hacc h
  case jsonb => exact keptValue_json_iff hdb hacc h
  case bigint | bigserial => exact iff_of_true (keptValue_integer hhost hdb rfl (.inr rfl) hacc h) trivial
  case integer | int4 | smallint | int2 =>
    exact iff_of_true (keptValue_integer hhost hdb rfl (.inl rfl) hacc h) trivial
  case numeric => exact keptValue_decimal_iff hhost hdb hacc h
  case text => exact iff_of_true (keptValue_text hacc h) trivial

end

/-! ## Every column -/

/-- A column that is only looked up is not in the rows that a caller gets. -/
theorem not_kept_of_blindIndex {host : Host} {db : Database} {info : TableInfo} {key : String} {pgType : PgType}
    {value returned : Value} {cell : Cell} (hkey : info.isBlindIndex key = true)
    (hreturned : Returned host cell returned) : ¬ Kept host db info key pgType kind value cell := by
  rintro ⟨hread, -⟩
  obtain ⟨read, hmem, -⟩ := hread [(key, returned)] returned (List.mem_singleton_self _) hreturned
  simp [coerceDriverRow, hkey] at hmem

/-- A language whose numbers are integers. -/
def plainHost : Host where
  number s := (bigIntOf s).map fun n => .json (.number (numberOfInt n))
  instantFrom := bigIntOf
  instantText := toString
  plainDateFrom _ := none
  plainDateTimeText := toString
  zonedDateTimeText wall zone := toString wall ++ zone
  dateText epochMs := toString (fromEpochMilliseconds epochMs)
  utcDay _ := { year := 1970, month := 1, day := 1 }

theorem plainHost_lawful : plainHost.Lawful where
  instantFrom := bigIntOf_toString
  instantFromDate _ := bigIntOf_toString _
  number n _ := by
    change (bigIntOf (toString n)).map _ = _
    rw [bigIntOf_toString]
    rfl
  nan := by decide

/-- The bits of an integer without its sign. -/
def integerBits : PgType → ℕ
  | .smallint | .int2 => 15
  | .bigint | .int8 | .bigserial => 63
  | _ => 31

/-- A database with columns for JSON, texts and integers, whose driver sends a string as a JSON string. -/
def jsonDatabase : Database where
  timestamptzOf _ _ := none
  dateOf _ := none
  integerOf pgType s := (bigIntOf s).filter fun n => -2 ^ integerBits pgType ≤ n ∧ n < 2 ^ integerBits pgType
  numericOf _ s := (bigIntOf s).map toString
  jsonbOf := parseJson
  jsonbParam tree := .ofList tree.stringify
  dateParam := toString

theorem jsonDatabase_lawful : jsonDatabase.Lawful plainHost where
  timestamptz _ _ _ h := nomatch h
  timestamptzDate _ _ := rfl
  date _ _ h := nomatch h
  dateInstant _ := rfl
  datePlain _ := rfl
  dateZoned _ _ := rfl
  integer _ n m h := by
    obtain ⟨h, -⟩ := Option.filter_eq_some_iff.1 h
    exact Option.some.inj (h.symm.trans (bigIntOf_toString n))
  integerSafe pgType s n hmem h := by
    have hbound := of_decide_eq_true (Option.filter_eq_some_iff.1 h).2
    cases pgType <;> first | (exact absurd hmem (by decide)) | (simp only [integerBits] at hbound; omega)
  numeric _ _ s h _ := by
    obtain ⟨n, -, rfl⟩ := Option.map_eq_some_iff.1 h
    change ((bigIntOf (toString n)).map _).isSome = true
    rw [bigIntOf_toString]
    rfl
  numericNumber _ n h := by
    obtain ⟨m, -, hm⟩ := Option.map_eq_some_iff.1 h
    have hread := bigIntOf_toString m
    rw [hm, show bigIntOf "NaN" = none by decide] at hread
    cases hread
  jsonb tree tree' hvalid h := by
    cases (parseJson_stringify hvalid).symm.trans h
    exact .refl _
  jsonbText _ tree' h := ⟨tree', h, fun _ heq => heq⟩
  paramText _ := .inr rfl
  paramObject _ := rfl
  paramArray _ _ := rfl

/-- A table with a count, whose other columns are jsonb. -/
def jsonTable : TableInfo where
  pgTypeOf key := some (if key = "count" then .integer else .jsonb)
  bigintJsModeOf _ := none
  fieldOf key := key
  hasColumn _ := true

theorem store_jsonDatabase (h : isPiiCiphertext (.text (.of s) : FieldValue Unit) = false) :
    jsonDatabase.store .jsonb (prepareValue plainHost (.text s) .jsonb) = some (.jsonb (.text s)) := by
  have hprep : prepareValue plainHost (.text s) .jsonb = .param .none (.text s) := by
    simp [prepareValue, Value.text, prepareCiphertext, h, prepareJsonbValue, prepareDriverNeutralScalar,
      isIntegerPgType]
  have hparse : parseJson (.ofList (JsonTree.text s).stringify) = some (.text s) := parseJson_stringify trivial
  rw [hprep]
  simp [Value.text, Database.store, Database.paramText, Database.read, jsonDatabase, hparse]

end Kumiko.DriverValues
