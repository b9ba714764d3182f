import Kumiko.Library.ThreeValued
import Mathlib.Algebra.Ring.Rat
import Mathlib.Data.List.Basic

/-!
# List filters and where clauses

A list filter on a column becomes SQL in two places: `applyListFilter` of
`db/event-store-executor-read-filter.ts`, and `buildWhereClause` of `db/where-clause.ts` over
`buildFilterWhere`. Both are modelled as they emit their conditions, with what the driver binds. They select the
same rows for every lawful `Postgres` exactly where `Agrees` holds (`sameRows_iff`).
-/

namespace Kumiko

/-- The value of a filter: it comes from the body of a request. Its strings are without NUL, which Postgres refuses
wherever it is bound. A filter that leaves out its value is not modelled. -/
inductive FilterValue where
  | null
  | bool (b : Bool)
  | number (n : ℚ)
  | str (s : String)
  | arr (values : List FilterValue)
  | obj (fields : List (String × FilterValue))

/-- Reference: `ListFilter`, `op`. -/
inductive FilterOp
  | eq | ne | lt | gt | lte | gte | in
  deriving DecidableEq

/-- Reference: `PgType` (`entity-table-meta-types.ts`). -/
inductive PgType
  | uuid | text | boolean | integer | doublePrecision | bigint | serial | bigserial | jsonb | timestamptz | timestamptz3
  | date
  | numeric (precision scale : ℕ)
  deriving DecidableEq

/-- A column of an entity's table that a filter names. -/
structure FilterColumn where
  pgType : PgType
  /-- The field is a multiSelect or a reference with `multiple`. Reference: `isJsonbArrayField`. -/
  optionList : Bool
  /-- The table has the column's blind index. -/
  hasBidx : Bool
  /-- The column's own name has the suffix `_bidx`. -/
  namedBidx : Bool
  /-- Reference: `holdsCiphertextOrSecret`. -/
  holdsCiphertextOrSecret : Bool
  /-- Reference: `isBlindIndexEqualityTarget`. -/
  blindIndexTarget : Bool
  optionList_jsonb : optionList = true → pgType = .jsonb
  hasBidx_text : hasBidx = true → pgType = .text

/-- The blind index under the configured key, and what `Temporal` and Postgres read of a string: the nanoseconds of an
ISO instant, whether Postgres reads that instant too, which it does not of a text with a zone in brackets, and whether a
text has no more digits than a column type keeps. -/
structure FilterEnv where
  computeBlindIndex : Option (String → String)
  instantOf : String → Option ℤ
  readsInstant : String → Bool
  keepsDigits : PgType → String → Bool

/-- What is bound to a placeholder: a value as it is, the JSON text of a value or the value cast to jsonb, the text of a
number, and an instant in milliseconds. -/
inductive Sent where
  | raw (v : FilterValue)
  | json (v : FilterValue)
  | text (n : ℚ)
  | instant (ms : ℤ)

inductive SqlOp
  | eq | ne | lt | gt | lte | gte | like
  deriving DecidableEq

/-- A condition on the column. -/
inductive SqlCondition where
  | never
  | always
  | isNull
  | isNotNull
  | compare (op : SqlOp) (v : Sent)
  /-- `IN` and `NOT IN` with a placeholder for each value. -/
  | oneOf (vs : List Sent)
  | noneOf (vs : List Sent)
  /-- `= ANY` of one array parameter, cast to the type of the column. -/
  | equalsAny (vs : List FilterValue)
  /-- `@>` -/
  | contains (v : FilterValue)
  /-- `=` with a JSON text. -/
  | equalsJson (v : FilterValue)
  /-- The first of the keys that the value has is the text. -/
  | textAt (keys : List String) (text : String)
  /-- The column's blind index is that of the text. -/
  | blindIndex (text : String)
  /-- The read ownership of the field. -/
  | owned
  | or (a b : SqlCondition)
  | not (a : SqlCondition)

/-- Conditions joined with `OR`, and `FALSE` for none. -/
def SqlCondition.disjoin : List SqlCondition → SqlCondition
  | [] => .never
  | [c] => c
  | c :: cs => .or c (disjoin cs)

/-! ## What is bound -/

namespace PgType

/-- Reference: `INTEGER_PG_TYPES`. -/
def isInteger : PgType → Bool
  | integer | bigint | serial | bigserial => true
  | _ => false

def isTimestamptz : PgType → Bool
  | timestamptz | timestamptz3 => true
  | _ => false

/-- A whole number that the type has. -/
def hasNumber (t : PgType) (n : ℚ) : Bool :=
  n.den == 1 && match t with
    | integer | serial => decide (-2 ^ 31 ≤ n.num ∧ n.num < 2 ^ 31)
    | _ => decide (-2 ^ 63 ≤ n.num ∧ n.num < 2 ^ 63)

/-- The columns whose list of values is one array parameter. Reference: `inListSql`, `arrayable`. -/
def arrayable : PgType → Bool
  | jsonb | serial | bigserial => false
  | _ => true

end PgType

namespace FilterValue

def isNull : FilterValue → Bool
  | null => true
  | _ => false

def isArray : FilterValue → Bool
  | arr _ => true
  | _ => false

/-- The value is the string. -/
def isStr (s : String) : FilterValue → Bool
  | str s' => s' = s
  | _ => false

def str? : FilterValue → Option String
  | str s => some s
  | _ => none

/-- Reference: `isJsonbScalar`. -/
def isJsonbScalar : FilterValue → Bool
  | bool _ | number _ | str _ => true
  | _ => false

end FilterValue

/-- The strings of a jsonb column do not get here. Reference: `prepareValue`. -/
def prepareValue (env : FilterEnv) (t : PgType) (v : FilterValue) : Sent :=
  match v with
  | .number n => if t = .jsonb then .json v else if t.isInteger then .text n else .raw v
  | .str s =>
    if t.isTimestamptz then
      match env.instantOf s with
      | some ns => .instant (ns / 1000000)
      | none => .raw v
    else .raw v
  | .bool _ | .arr _ | .obj _ => if t = .jsonb then .json v else .raw v
  | .null => .raw v

/-! ## The list -/

/-- The condition on one field, as a `WhereObject` has it; `none` matches nothing. Reference: `buildFilterWhere`. -/
def buildFilterWhere (op : FilterOp) (value : FilterValue) : Option FilterValue :=
  match op with
  | .eq => some value
  | .ne => some (.obj [("ne", value)])
  | .lt => some (.obj [("lt", value)])
  | .gt => some (.obj [("gt", value)])
  | .lte => some (.obj [("lte", value)])
  | .gte => some (.obj [("gte", value)])
  | .in =>
    match value with
    | .arr (v :: vs) => some (.arr (v :: vs))
    | _ => none

/-- Reference: `applyMultiSelectFilter`. -/
def applyMultiSelectFilter (op : FilterOp) (value : FilterValue) : List SqlCondition :=
  match op with
  | .lt | .gt | .lte | .gte => [.never]
  | .in =>
    match value with
    | .arr (v :: vs) => [.disjoin ((v :: vs).map fun v => .contains (.arr [v]))]
    | _ => [.never]
  | .eq | .ne =>
    let candidates := match value with
      | .arr vs => vs
      | v => [v]
    match candidates with
    | [] => [.never]
    | _ => if op = .ne then [.or .isNull (.not (.contains (.arr candidates)))] else [.contains (.arr candidates)]

/-- Reference: `inListSql`. -/
def inListSql (t : PgType) (vs : List FilterValue) : SqlCondition :=
  if t.arrayable then .equalsAny vs else .oneOf (vs.map .raw)

/-- The comparisons among the keys of an object, in the order both sides emit them. Reference: `opMap`. -/
def comparisonKeys : List (String × SqlOp) := [("gt", .gt), ("gte", .gte), ("lt", .lt), ("lte", .lte), ("ne", .ne)]

def operands (fields : List (String × FilterValue)) : List (SqlOp × FilterValue) :=
  comparisonKeys.filterMap fun k => (fields.lookup k.1).map fun v => (k.2, v)

/-- The object is `{ ne: null }`. -/
def onlyNeNull (fields : List (String × FilterValue)) : Bool :=
  (fields.lookup "ne").any (·.isNull) && fields.length == 1

/-- The conditions on the field of a `WhereObject`. Reference: `applyScreenFilter`, the loop. -/
def screenConditions (env : FilterEnv) (c : FilterColumn) (value : FilterValue) : List SqlCondition :=
  match value with
  | .null => [.isNull]
  | .arr vs => [inListSql c.pgType vs]
  | .obj fields =>
    if onlyNeNull fields then [.isNotNull] else (operands fields).map fun p => .compare p.1 (.raw p.2)
  | .str s =>
    if env.computeBlindIndex.isSome && c.hasBidx then [.or (.compare .eq (.raw value)) (.blindIndex s)]
    else [.compare .eq (.raw value)]
  | .bool _ | .number _ => [.compare .eq (.raw value)]

/-- Reference: `applyScreenFilter`. -/
def applyScreenFilter (env : FilterEnv) (c : FilterColumn) (op : FilterOp) (value : FilterValue) : List SqlCondition :=
  match buildFilterWhere op value with
  | none => [.never]
  | some screen => screenConditions env c screen

/-- Whose rows the reader may probe through the field. Reference: `OwnershipClause`. -/
inductive FieldReadClause
  | all | empty | sql
  deriving DecidableEq

/-- Reference: `isListFilterAllowed`. -/
def isListFilterAllowed (c : FilterColumn) (op : FilterOp) (value : FilterValue) : Bool :=
  !c.holdsCiphertextOrSecret || (c.blindIndexTarget && op == .eq && match value with
    | .str _ => true
    | _ => false)

/-- The conditions of a filter on a column of the table; `none` is the validation error. Reference:
`applyListFilter`. -/
def applyListFilter (env : FilterEnv) (c : FilterColumn) (read : FieldReadClause) (op : FilterOp)
    (value : FilterValue) : Option (List SqlCondition) :=
  if read = .empty then some [.never]
  else if !isListFilterAllowed c op value then none
  else
    let conditions := if c.optionList then applyMultiSelectFilter op value else applyScreenFilter env c op value
    some (if read = .sql then .owned :: conditions else conditions)

/-! ## The where clause -/

/-- Reference: `jsonbContainsAny`. -/
def jsonbContainsAny (candidates : List FilterValue) : SqlCondition :=
  .disjoin (candidates.flatMap fun v => .contains (.arr [v]) :: if v.isJsonbScalar then [.equalsJson v] else [])

/-- The emitters, in the order of emission. Reference: `OPERATOR_EMITTERS`. -/
def operatorKeys : List String := ["jsonText", "gt", "gte", "lt", "lte", "ne", "like", "in", "notIn"]

/-- Reference: `isWhereOperator`. -/
def isWhereOperator (fields : List (String × FilterValue)) : Bool :=
  !fields.isEmpty && fields.all fun field => operatorKeys.contains field.1

/-- Reference: `isValidJsonTextMatch`, `jsonTextMatchCondition`. -/
def jsonTextMatchCondition (m : FilterValue) : Option SqlCondition :=
  match m with
  | .obj fields =>
    match fields.lookup "keys", fields.lookup "eq" with
    | some (.arr (k :: ks)), some (.str text) =>
      ((k :: ks).mapM FilterValue.str?).map fun keys => .textAt keys text
    | _, _ => none
  | _ => none

/-- Where it is `none`, the emitter throws. Reference: `emitJsonText`. -/
def emitJsonText (t : PgType) (fields : List (String × FilterValue)) : Option (List SqlCondition) :=
  match fields.lookup "jsonText" with
  | none => some []
  | some operand =>
    if fields.length > 1 then none
    else if t ≠ .jsonb then none
    else
      match operand with
      | .arr [] => some [.never]
      | .arr ms => ms.mapM jsonTextMatchCondition
      | m => (jsonTextMatchCondition m).map fun c => [c]

/-- Reference: `comparisonEmitter`. -/
def comparisonEmitter (env : FilterEnv) (t : PgType) (key : String) (op : SqlOp)
    (fields : List (String × FilterValue)) : List SqlCondition :=
  match fields.lookup key with
  | none => []
  | some operand => if t = .jsonb then [.never] else [.compare op (prepareValue env t operand)]

/-- Reference: `jsonbNotEqualCondition`. -/
def jsonbNotEqualCondition (operand : FilterValue) : Option SqlCondition :=
  match operand with
  | .arr [] => some .never
  | .arr vs => some (.or .isNull (.not (.contains (.arr vs))))
  | .null | .obj _ => none
  | v => some (.or .isNull (.not (.or (.contains (.arr [v])) (.equalsJson v))))

/-- Reference: `emitNotEqual`. -/
def emitNotEqual (env : FilterEnv) (t : PgType) (fields : List (String × FilterValue)) : List SqlCondition :=
  match fields.lookup "ne" with
  | none => []
  | some operand =>
    if onlyNeNull fields then [.isNotNull]
    else
      match if t = .jsonb then jsonbNotEqualCondition operand else none with
      | some condition => [condition]
      | none => [.compare .ne (prepareValue env t operand)]

/-- Reference: `emitIn`. -/
def emitIn (env : FilterEnv) (t : PgType) (fields : List (String × FilterValue)) : Option (List SqlCondition) :=
  match fields.lookup "in" with
  | none => some []
  | some (.arr vs) =>
    if t = .jsonb then some [jsonbContainsAny vs]
    else if vs.isEmpty then some [.never]
    else some [.oneOf (vs.map (prepareValue env t))]
  | some _ => none

/-- Reference: `emitNotIn`. -/
def emitNotIn (env : FilterEnv) (t : PgType) (fields : List (String × FilterValue)) : Option (List SqlCondition) :=
  match fields.lookup "notIn" with
  | none => some []
  | some (.arr vs) =>
    if t = .jsonb then none
    else if vs.isEmpty then some [.always]
    else some [.noneOf (vs.map (prepareValue env t))]
  | some _ => none

/-- An object without an operand does not get here. Reference: `operatorConditions`. -/
def operatorConditions (env : FilterEnv) (t : PgType) (fields : List (String × FilterValue)) :
    Option (List SqlCondition) := do
  let jsonText ← emitJsonText t fields
  let comparisons := comparisonEmitter env t "gt" .gt fields ++ comparisonEmitter env t "gte" .gte fields ++
    comparisonEmitter env t "lt" .lt fields ++ comparisonEmitter env t "lte" .lte fields
  let notEqual := emitNotEqual env t fields
  let like := comparisonEmitter env t "like" .like fields
  let isIn ← emitIn env t fields
  let notIn ← emitNotIn env t fields
  some (jsonText ++ comparisons ++ notEqual ++ like ++ isIn ++ notIn)

/-- Reference: `equalityCondition`. -/
def equalityCondition (env : FilterEnv) (c : FilterColumn) (value : FilterValue) : SqlCondition :=
  let p := prepareValue env c.pgType value
  match value with
  | .str s =>
    if env.computeBlindIndex.isSome && !c.namedBidx && c.hasBidx then .or (.compare .eq p) (.blindIndex s)
    else .compare .eq p
  | _ => .compare .eq p

/-- Reference: `arrayCondition`. -/
def arrayCondition (env : FilterEnv) (t : PgType) (vs : List FilterValue) : SqlCondition :=
  if vs.isEmpty then .never
  else if t = .jsonb then jsonbContainsAny vs
  else .oneOf (vs.map (prepareValue env t))

/-- Reference: `conditionsForValue`. -/
def conditionsForValue (env : FilterEnv) (c : FilterColumn) (value : FilterValue) : Option (List SqlCondition) :=
  match value with
  | .null => some [.isNull]
  | .arr vs => some [arrayCondition env c.pgType vs]
  | .obj fields =>
    if isWhereOperator fields then operatorConditions env c.pgType fields
    else some [equalityCondition env c value]
  | v =>
    if c.pgType = .jsonb then some [jsonbContainsAny [v]]
    else some [equalityCondition env c v]

/-- The where clause of a filter; `none` is an error. Reference: `buildWhereClause`. -/
def buildWhereClause (env : FilterEnv) (c : FilterColumn) (op : FilterOp) (value : FilterValue) :
    Option (List SqlCondition) :=
  match buildFilterWhere op value with
  | none => some [.never]
  | some screen => conditionsForValue env c screen

/-! ## What the conditions select -/

/-- A value of a column. -/
inductive CellValue (S : Type) where
  | json (v : FilterValue)
  | scalar (s : S)

/-- What Postgres and the driver make of the values that are bound. -/
structure Postgres where
  /-- The values of the types other than jsonb. -/
  Scalar : Type
  /-- The statement is not rejected for the value. -/
  accepts : PgType → SqlOp → Sent → Bool
  compare : PgType → SqlOp → CellValue Scalar → Sent → Truth
  acceptsArray : PgType → List FilterValue → Bool
  equalsAny : PgType → CellValue Scalar → List FilterValue → Truth
  /-- `@>` -/
  contains : FilterValue → FilterValue → Bool
  equalsJson : FilterValue → FilterValue → Bool
  /-- `->>` -/
  textAt : FilterValue → String → Option String

/-- What the conditions read of a row. -/
structure FilterRow (S : Type) where
  cell : Option (CellValue S)
  bidx : Option String
  /-- The truth of the field's read ownership. -/
  owned : Truth

/-- The value that a list of options is stored as. -/
def optionsValue (options : List String) : FilterValue := .arr (options.map .str)

/-- The row is one of the column: `NULL`, an array of options, a JSON value or a scalar. -/
def FilterRow.Fits {S : Type} (row : FilterRow S) (c : FilterColumn) : Prop :=
  ∀ cell, row.cell = some cell →
    if c.optionList then ∃ options, cell = .json (optionsValue options)
    else if c.pgType = .jsonb then ∃ v, cell = .json v
    else ∃ s, cell = .scalar s

namespace SqlCondition

variable (pg : Postgres) (env : FilterEnv) (t : PgType)

/-- `IN ()` is a syntax error. -/
def accepted : SqlCondition → Bool
  | compare op v => pg.accepts t op v
  | oneOf vs | noneOf vs => !vs.isEmpty && vs.all (pg.accepts t .eq)
  | equalsAny vs => pg.acceptsArray t vs
  | or a b => a.accepted && b.accepted
  | not a => a.accepted
  | _ => true

/-- The value equals one of these. -/
def truthOneOf (cell : CellValue pg.Scalar) (vs : List Sent) : Truth := Truth.any (vs.map (pg.compare t .eq cell))

/-- The truth of a condition in a row. -/
def truth (row : FilterRow pg.Scalar) : SqlCondition → Truth
  | never => some false
  | always => some true
  | isNull => Truth.isNull row.cell
  | isNotNull => Truth.isNotNull row.cell
  | compare op v => row.cell.bind fun cell => pg.compare t op cell v
  | oneOf vs => row.cell.bind fun cell => truthOneOf pg t cell vs
  | noneOf vs => row.cell.bind fun cell => (truthOneOf pg t cell vs).not
  | equalsAny vs => row.cell.bind fun cell => pg.equalsAny t cell vs
  | contains v => row.cell.bind fun
    | .json a => some (pg.contains a v)
    | .scalar _ => none
  | equalsJson v => row.cell.bind fun
    | .json a => some (pg.equalsJson a v)
    | .scalar _ => none
  | textAt keys text => row.cell.bind fun
    | .json a => (keys.findSome? (pg.textAt a)).map (· == text)
    | .scalar _ => none
  | blindIndex text => Truth.compare (· == ·) row.bidx (env.computeBlindIndex.map (· text))
  | owned => row.owned
  | or a b => (a.truth row).or (b.truth row)
  | not a => (a.truth row).not

/-- Whether the row is selected by the conditions together; `none` is an error of the statement. -/
def selected (row : FilterRow pg.Scalar) (conditions : List SqlCondition) : Option Bool :=
  if conditions.all (accepted pg t) then some (conditions.all fun a => (a.truth pg env t row).holds) else none

end SqlCondition

/-- Postgres takes what `prepareValue` makes of the value as it takes the value itself: it changes only whole numbers
that the type has, and instants without a part of a millisecond in a text that Postgres reads. -/
def sentAlike (env : FilterEnv) (t : PgType) : FilterValue → Bool
  | .number n => !t.isInteger || t.hasNumber n
  | .str s => !t.isTimestamptz || (env.instantOf s).all fun ns => env.readsInstant s && ns % 1000000 == 0
  | _ => true

/-- Postgres takes the value in an array of the column's type as it takes it alone: it has the type, and no more digits
than the type keeps. -/
def listedAlike (env : FilterEnv) (t : PgType) : FilterValue → Bool
  | .null => true
  | .bool _ => t == .boolean
  | .number n =>
    match t with
    | .doublePrecision => true
    | .numeric precision scale =>
      (n * (10 ^ scale : ℕ)).den == 1 && decide ((n * (10 ^ scale : ℕ)).num.natAbs < 10 ^ precision)
    | _ => t.isInteger && t.hasNumber n
  | .str s =>
    match t with
    | .timestamptz | .timestamptz3 =>
      match env.instantOf s with
      | some ns => env.readsInstant s && ns % 1000000 == 0
      | none => env.keepsDigits t s
    | .numeric .. => env.keepsDigits t s
    | _ => true
  | .arr _ | .obj _ => false

/-- What the code relies on. -/
structure Postgres.Lawful (env : FilterEnv) (pg : Postgres) : Prop where
  /-- A comparison with `NULL` is unknown. Only texts have `LIKE`. -/
  null : ∀ t op, ((op = .like → t = .text) → pg.accepts t op (.raw .null) = true) ∧
    ∀ cell, pg.compare t op cell (.raw .null) = none
  /-- A number of the type is the same as a number and as a text. -/
  number : ∀ t n, t.isInteger = true → t.hasNumber n = true → ∀ op,
    pg.accepts t op (.text n) = pg.accepts t op (.raw (.number n)) ∧
      ∀ cell, pg.compare t op cell (.text n) = pg.compare t op cell (.raw (.number n))
  /-- An ISO text that Postgres reads stands for its instant. -/
  instant : ∀ t s ns, t.isTimestamptz = true → env.instantOf s = some ns → env.readsInstant s = true →
    ns % 1000000 = 0 → ∀ op,
    pg.accepts t op (.instant (ns / 1000000)) = pg.accepts t op (.raw (.str s)) ∧
      ∀ cell, pg.compare t op cell (.instant (ns / 1000000)) = pg.compare t op cell (.raw (.str s))
  /-- An array of such values is compared value by value. -/
  array : ∀ t vs, t.arrayable = true → (∀ v ∈ vs, listedAlike env t v = true) →
    pg.acceptsArray t vs = vs.all (fun v => pg.accepts t .eq (prepareValue env t v)) ∧
      ∀ cell, pg.equalsAny t cell vs = SqlCondition.truthOneOf pg t cell (vs.map (prepareValue env t))
  /-- An array of options contains an array when each of its values is one of the options. -/
  contains : ∀ options vs,
    pg.contains (optionsValue options) (.arr vs) = vs.all fun v => options.any fun s => v.isStr s
  /-- It is no scalar and no object, and has no text under a key. -/
  equalsJson : ∀ options v, v.isArray = false → pg.equalsJson (optionsValue options) v = false
  textAt : ∀ options key, pg.textAt (optionsValue options) key = none
  /-- JSON is accepted, and compared as such. -/
  json : ∀ v, (∀ op, op ≠ .like → pg.accepts .jsonb op (.json v) = true) ∧
    ∀ a, pg.compare .jsonb .eq (.json a) (.json v) = some (pg.equalsJson a v)

/-- The list selects of the column's rows what the where clause selects, or both fail. -/
def SameRows (env : FilterEnv) (c : FilterColumn) (op : FilterOp) (value : FilterValue) : Prop :=
  ∀ pg : Postgres, pg.Lawful env → ∀ row : FilterRow pg.Scalar, row.Fits c →
    (applyListFilter env c .all op value).bind (SqlCondition.selected pg env c.pgType row) =
      (buildWhereClause env c op value).bind (SqlCondition.selected pg env c.pgType row)

/-! ## Where the two agree -/

namespace FilterValue

/-- An array of `NULL`s. -/
def isNulls : FilterValue → Bool
  | arr vs => vs.all isNull
  | _ => false

/-- The text matches of a `jsonText` operand are well formed. -/
def areTextMatches : FilterValue → Bool
  | arr ms => ms.all fun m => (jsonTextMatchCondition m).isSome
  | m => (jsonTextMatchCondition m).isSome

end FilterValue

/-- The operators beyond the comparisons select every row. -/
def AddsNothing (fields : List (String × FilterValue)) : Prop :=
  fields.lookup "like" = none ∧ fields.lookup "in" = none ∧ ∀ v, fields.lookup "notIn" = some v → v = .arr []

/-- They bind nothing but `NULL`, and `LIKE` is asked of a text. -/
def AddsNulls (t : PgType) (fields : List (String × FilterValue)) : Prop :=
  (∀ v, fields.lookup "like" = some v → v.isNull = true ∧ t = .text) ∧
    (∀ v, fields.lookup "in" = some v → v.isNulls = true) ∧ ∀ v, fields.lookup "notIn" = some v → v.isNulls = true

/-- On a column that is not jsonb both read the same comparisons in the object. -/
def ScalarObjectAgrees (env : FilterEnv) (t : PgType) (fields : List (String × FilterValue)) : Prop :=
  isWhereOperator fields = true ∧ (onlyNeNull fields = true ∨
    fields.lookup "jsonText" = none ∧ (∀ p ∈ operands fields, sentAlike env t p.2 = true) ∧
      (AddsNothing fields ∨ (∃ p ∈ operands fields, p.2.isNull = true) ∧ AddsNulls t fields))

/-- On another jsonb column both are never true of it, or ask for `NOT NULL`. -/
def JsonbObjectAgrees (fields : List (String × FilterValue)) : Prop :=
  isWhereOperator fields = true ∧ (onlyNeNull fields = true ∨
    operands fields ≠ [] ∧ (∀ p ∈ operands fields, p.2.isNull = true) ∧ fields.lookup "jsonText" = none ∧
      fields.lookup "notIn" = none ∧ ∀ v, fields.lookup "in" = some v → v.isArray = true)

/-- `ne` is true of no list of options with this one. -/
def neExcludes (fields : List (String × FilterValue)) (option : String) : Bool :=
  match fields.lookup "ne" with
  | none | some (.obj _) => false
  | some .null => fields.length != 1
  | some (.arr vs) => vs.all (·.isStr option)
  | some v => v.isStr option

/-- `ne` is never true. -/
def neNever (fields : List (String × FilterValue)) : Bool :=
  match fields.lookup "ne" with
  | some .null => fields.length != 1
  | some (.arr []) => true
  | _ => false

/-- Where an object is read as operators, they are true of no list of options; the list finds none with the object in
it. -/
def OptionObjectAgrees (fields : List (String × FilterValue)) : Prop :=
  isWhereOperator fields = false ∨
    match fields.lookup "jsonText" with
    | some m => fields.length ≤ 1 ∧ m.areTextMatches = true
    | none => fields.lookup "notIn" = none ∧ (∀ v, fields.lookup "in" = some v → v.isArray = true) ∧
      ((∃ key ∈ ["gt", "gte", "lt", "lte", "like"], (fields.lookup key).isSome = true) ∨
        match fields.lookup "in" with
        | some (.arr vs) => ∀ s, (∃ v ∈ vs, v.isStr s = true) → neExcludes fields s = true
        | _ => neNever fields = true)

/-- On a list of options: equality is of one option, and `ne` is not asked of `NULL` or an object. -/
def OptionListAgrees : FilterOp → FilterValue → Prop
  | .eq, .null => False
  | .eq, .arr vs => ∀ s, (∃ v ∈ vs, v.isStr s = true) → ∀ v ∈ vs, v.isStr s = true
  | .eq, .obj fields => OptionObjectAgrees fields
  | .ne, .null | .ne, .obj _ => False
  | _, _ => True

/-- A list of values on a column that is not jsonb. -/
def ScalarListAgrees (env : FilterEnv) (t : PgType) (vs : List FilterValue) : Prop :=
  if t.arrayable then ∀ v ∈ vs, listedAlike env t v = true else vs ≠ [] ∧ ∀ v ∈ vs, sentAlike env t v = true

def ScalarAgrees (env : FilterEnv) (c : FilterColumn) : FilterValue → Prop
  | .null => True
  | .arr vs => ScalarListAgrees env c.pgType vs
  | .obj fields => ScalarObjectAgrees env c.pgType fields
  | .str s => sentAlike env c.pgType (.str s) = true ∧
      ¬ (env.computeBlindIndex.isSome = true ∧ c.hasBidx = true ∧ c.namedBidx = true)
  | v => sentAlike env c.pgType v = true

def JsonbAgrees : FilterValue → Prop
  | .null => True
  | .obj fields => JsonbObjectAgrees fields
  | _ => False

/-- The list and the where clause select the same rows. -/
def Agrees (env : FilterEnv) (c : FilterColumn) (op : FilterOp) (value : FilterValue) : Prop :=
  if c.optionList then OptionListAgrees op value
  else
    match buildFilterWhere op value with
    | none => True
    | some screen => if c.pgType = .jsonb then JsonbAgrees screen else ScalarAgrees env c screen

/-! ## Readings that agree -/

section
variable {env : FilterEnv} {pg : Postgres} {t : PgType} {c : FilterColumn} {row : FilterRow pg.Scalar}
  {fields : List (String × FilterValue)} {v : FilterValue} {vs : List FilterValue} {l l' : List SqlCondition}

/-- What `prepareValue` changes is taken as the value itself. -/
theorem Postgres.Lawful.alike (h : pg.Lawful env) (ht : t ≠ .jsonb) (hv : sentAlike env t v = true) (op : SqlOp) :
    pg.accepts t op (prepareValue env t v) = pg.accepts t op (.raw v) ∧
      ∀ cell, pg.compare t op cell (prepareValue env t v) = pg.compare t op cell (.raw v) := by
  cases v with
  | null => exact ⟨rfl, fun _ => rfl⟩
  | bool | arr | obj =>
    rw [prepareValue, if_neg ht]
    exact ⟨rfl, fun _ => rfl⟩
  | number n =>
    rw [prepareValue, if_neg ht]
    split
    · next hi => exact h.number t n hi (by simpa [sentAlike, hi] using hv) op
    · exact ⟨rfl, fun _ => rfl⟩
  | str s =>
    rw [prepareValue]
    split
    · next hts =>
      split
      · next ns hns =>
        have hreads : env.readsInstant s = true ∧ ns % 1000000 = 0 := by simpa [sentAlike, hts, hns] using hv
        exact h.instant t s ns hts hns hreads.1 hreads.2 op
      · exact ⟨rfl, fun _ => rfl⟩
    · exact ⟨rfl, fun _ => rfl⟩

namespace SqlCondition

theorem selected_congr (ha : l.all (accepted pg t) = l'.all (accepted pg t))
    (ht : l.all (accepted pg t) = true →
      (l.all fun a => (a.truth pg env t row).holds) = l'.all fun a => (a.truth pg env t row).holds) :
    selected pg env t row l = selected pg env t row l' := by
  unfold selected
  rw [← ha]
  split
  · next h => rw [ht h]
  · rfl

/-- Conditions of which one is never true, and all are accepted. -/
theorem selected_never (ha : ∀ a ∈ l, a.accepted pg t = true) (hn : ∃ a ∈ l, (a.truth pg env t row).holds = false) :
    selected pg env t row l = some false := by
  obtain ⟨a, hmem, hfalse⟩ := hn
  rw [selected, if_pos (List.all_eq_true.2 ha)]
  exact congrArg some (List.all_eq_false.2 ⟨a, hmem, by simp [hfalse]⟩)

theorem disjoin_cons_cons {a b : SqlCondition} : disjoin (a :: b :: l) = .or a (disjoin (b :: l)) := rfl

theorem accepted_disjoin : (disjoin l).accepted pg t = l.all (accepted pg t) := by
  induction l with
  | nil => rfl
  | cons a l ih =>
    cases l with
    | nil => simp [disjoin]
    | cons b l => simp only [disjoin_cons_cons, accepted, ih, List.all_cons]

theorem holds_disjoin :
    ((disjoin l).truth pg env t row).holds = l.any fun a => (a.truth pg env t row).holds := by
  induction l with
  | nil => rfl
  | cons a l ih =>
    cases l with
    | nil => simp [disjoin]
    | cons b l => simp only [disjoin_cons_cons, truth, Truth.holds_or, ih, List.any_cons]

end SqlCondition

open SqlCondition

/-! ### Comparisons -/

/-- The comparisons of the list, and those of the where clause. -/
def rawComparisons (fields : List (String × FilterValue)) : List SqlCondition :=
  (operands fields).map fun p => .compare p.1 (.raw p.2)

def preparedComparisons (env : FilterEnv) (t : PgType) (fields : List (String × FilterValue)) : List SqlCondition :=
  (operands fields).map fun p => .compare p.1 (prepareValue env t p.2)

/-- The conditions of the operators beyond the comparisons. -/
def addedConditions (env : FilterEnv) (t : PgType) (fields : List (String × FilterValue)) : List SqlCondition :=
  comparisonEmitter env t "like" .like fields ++ (emitIn env t fields).getD [] ++ (emitNotIn env t fields).getD []

theorem emitIn_some (h : ∀ v, fields.lookup "in" = some v → v.isArray = true) :
    emitIn env t fields = some ((emitIn env t fields).getD []) := by
  unfold emitIn
  split
  · rfl
  · split_ifs <;> rfl
  · next v hv hl =>
    cases v with
    | arr vs => exact (hv vs rfl).elim
    | null | bool | number | str | obj => exact absurd (h _ hl) (by simp [FilterValue.isArray])

theorem emitNotIn_some (ht : t ≠ .jsonb) (h : ∀ v, fields.lookup "notIn" = some v → v.isArray = true) :
    emitNotIn env t fields = some ((emitNotIn env t fields).getD []) := by
  unfold emitNotIn
  split
  · rfl
  · rw [if_neg ht]
    split_ifs <;> rfl
  · next v hv hl =>
    cases v with
    | arr vs => exact (hv vs rfl).elim
    | null | bool | number | str | obj => exact absurd (h _ hl) (by simp [FilterValue.isArray])

theorem operatorConditions_scalar (ht : t ≠ .jsonb) (hn : onlyNeNull fields = false)
    (hj : fields.lookup "jsonText" = none) (hin : ∀ v, fields.lookup "in" = some v → v.isArray = true)
    (hnot : ∀ v, fields.lookup "notIn" = some v → v.isArray = true) :
    operatorConditions env t fields = some (preparedComparisons env t fields ++ addedConditions env t fields) := by
  have hcompare : comparisonEmitter env t "gt" .gt fields ++ comparisonEmitter env t "gte" .gte fields ++
      comparisonEmitter env t "lt" .lt fields ++ comparisonEmitter env t "lte" .lte fields ++
      emitNotEqual env t fields = preparedComparisons env t fields := by
    unfold preparedComparisons operands comparisonKeys comparisonEmitter emitNotEqual
    simp only [ht, hn, if_false, Bool.false_eq_true, List.filterMap_cons, List.filterMap_nil]
    cases fields.lookup "gt" <;> cases fields.lookup "gte" <;> cases fields.lookup "lt" <;>
      cases fields.lookup "lte" <;> cases fields.lookup "ne" <;> rfl
  have hjson : emitJsonText t fields = some [] := by
    unfold emitJsonText
    rw [hj]
  unfold operatorConditions addedConditions
  rw [hjson, emitIn_some hin, emitNotIn_some ht hnot, ← hcompare]
  simp only [Option.bind_eq_bind, Option.bind_some, Option.getD_some, List.nil_append, List.append_assoc]

theorem accepted_containsAny : (jsonbContainsAny vs).accepted pg t = true := by
  rw [jsonbContainsAny, accepted_disjoin, List.all_eq_true]
  intro a ha
  obtain ⟨v, -, hv⟩ := List.mem_flatMap.1 ha
  rcases List.mem_cons.1 hv with rfl | hv
  · rfl
  · split at hv
    · rw [List.mem_singleton.1 hv]
      rfl
    · cases hv

/-- An object with the one key asks for `NOT NULL` on both sides. -/
theorem operatorConditions_onlyNeNull (h : onlyNeNull fields = true) :
    operatorConditions env t fields = some [.isNotNull] := by
  have hone := h
  rw [onlyNeNull, Bool.and_eq_true, beq_iff_eq, List.length_eq_one_iff] at hone
  obtain ⟨hne, ⟨key, v⟩, rfl⟩ := hone
  have hkey : key = "ne" := by
    by_contra hkey
    simp [List.lookup_cons, show ("ne" == key) = false by simpa using Ne.symm hkey] at hne
  subst hkey
  have hother : ∀ k, k ≠ "ne" → [("ne", v)].lookup k = none := fun k hk => by
    simp [List.lookup_cons, show (k == "ne") = false by simpa using hk]
  have hself : [("ne", v)].lookup "ne" = some v := by simp
  have hcompare : ∀ k op, k ≠ "ne" → comparisonEmitter env t k op [("ne", v)] = [] := fun k op hk => by
    rw [comparisonEmitter, hother k hk]
  unfold operatorConditions emitJsonText emitIn emitNotIn emitNotEqual
  rw [hother "jsonText" (by decide), hother "in" (by decide), hother "notIn" (by decide), hself,
    hcompare "gt" _ (by decide), hcompare "gte" _ (by decide), hcompare "lt" _ (by decide),
    hcompare "lte" _ (by decide), hcompare "like" _ (by decide)]
  simp [h]

/-- Comparisons of values that Postgres takes alike. -/
theorem accepted_comparisons (h : pg.Lawful env) (ht : t ≠ .jsonb)
    (hv : ∀ p ∈ operands fields, sentAlike env t p.2 = true) :
    (preparedComparisons env t fields).all (accepted pg t) = (rawComparisons fields).all (accepted pg t) := by
  rw [preparedComparisons, rawComparisons, List.all_map, List.all_map, Bool.eq_iff_iff, List.all_eq_true,
    List.all_eq_true]
  refine forall₂_congr fun p hp => ?_
  show pg.accepts t p.1 _ = true ↔ pg.accepts t p.1 _ = true
  rw [(h.alike ht (hv p hp) p.1).1]

theorem holds_comparisons (h : pg.Lawful env) (ht : t ≠ .jsonb)
    (hv : ∀ p ∈ operands fields, sentAlike env t p.2 = true) :
    ((preparedComparisons env t fields).all fun a => (a.truth pg env t row).holds) =
      (rawComparisons fields).all fun a => (a.truth pg env t row).holds := by
  rw [preparedComparisons, rawComparisons, List.all_map, List.all_map, Bool.eq_iff_iff, List.all_eq_true,
    List.all_eq_true]
  refine forall₂_congr fun p hp => ?_
  show Truth.holds (row.cell.bind fun cell => pg.compare t p.1 cell (prepareValue env t p.2)) = true ↔
    Truth.holds (row.cell.bind fun cell => pg.compare t p.1 cell (.raw p.2)) = true
  rw [funext fun cell => (h.alike ht (hv p hp) p.1).2 cell]

/-- A comparison with `NULL` among them. -/
theorem never_of_null (h : pg.Lawful env) (hn : ∃ p ∈ operands fields, p.2.isNull = true) :
    ((rawComparisons fields).all fun a => (a.truth pg env t row).holds) = false := by
  obtain ⟨⟨op, v⟩, hp, hv⟩ := hn
  cases v with
  | null =>
    refine List.all_eq_false.2 ⟨_, List.mem_map_of_mem hp, ?_⟩
    show ¬ Truth.holds (row.cell.bind fun cell => pg.compare t op cell (.raw .null)) = true
    rw [funext fun cell => (h.null t op).2 cell]
    cases row.cell <;> simp
  | bool | number | str | arr | obj => exact absurd hv (by simp [FilterValue.isNull])

theorem addedConditions_nothing (env : FilterEnv) (t : PgType) (h : AddsNothing fields) :
    addedConditions env t fields = [] ∨ addedConditions env t fields = [.always] ∨ t = .jsonb := by
  obtain ⟨hl, hi, hn⟩ := h
  unfold addedConditions comparisonEmitter emitIn emitNotIn
  rw [hl, hi]
  cases hv : fields.lookup "notIn" with
  | none => exact .inl rfl
  | some v =>
    rw [hn v hv]
    by_cases ht : t = .jsonb
    · exact .inr (.inr ht)
    · simp [ht]

/-- What binds nothing but `NULL` is accepted. -/
theorem accepted_addsNulls (h : pg.Lawful env) (hn : AddsNulls t fields) :
    (addedConditions env t fields).all (accepted pg t) = true := by
  have hnulls : ∀ vs : List FilterValue, vs.all FilterValue.isNull = true →
      (vs.map (prepareValue env t)).all (pg.accepts t .eq) = true := by
    intro vs hvs
    rw [List.all_map, List.all_eq_true]
    intro v hv
    cases v with
    | null => exact (h.null t .eq).1 nofun
    | bool | number | str | arr | obj => exact absurd (List.all_eq_true.1 hvs _ hv) (by simp [FilterValue.isNull])
  unfold addedConditions
  rw [List.all_append, List.all_append, Bool.and_eq_true, Bool.and_eq_true]
  refine ⟨⟨?_, ?_⟩, ?_⟩
  · unfold comparisonEmitter
    cases hl : fields.lookup "like" with
    | none => rfl
    | some v =>
      obtain ⟨hv, ht⟩ := hn.1 v hl
      cases v with
      | null => simp [ht, accepted, prepareValue, (h.null .text .like).1 fun _ => rfl]
      | bool | number | str | arr | obj => exact absurd hv (by simp [FilterValue.isNull])
  · unfold emitIn
    cases hl : fields.lookup "in" with
    | none => rfl
    | some v =>
      have hv := hn.2.1 v hl
      cases v with
      | arr vs =>
        dsimp only
        split_ifs with ht he
        · simp [accepted_containsAny]
        · rfl
        · simp [accepted, he, hnulls vs hv]
      | null | bool | number | str | obj => cases hv
  · unfold emitNotIn
    cases hl : fields.lookup "notIn" with
    | none => rfl
    | some v =>
      have hv := hn.2.2 v hl
      cases v with
      | arr vs =>
        dsimp only
        split_ifs with ht he
        · rfl
        · rfl
        · simp [accepted, he, hnulls vs hv]
      | null | bool | number | str | obj => cases hv

/-- The object is read alike. -/
theorem selected_of_scalarObject (h : pg.Lawful env) (ht : c.pgType ≠ .jsonb)
    (ha : ScalarObjectAgrees env c.pgType fields) :
    selected pg env c.pgType row (screenConditions env c (.obj fields)) =
      (conditionsForValue env c (.obj fields)).bind (selected pg env c.pgType row) := by
  obtain ⟨hop, hone | ⟨hjson, halike, hadds⟩⟩ := ha
  · rw [screenConditions, if_pos hone, conditionsForValue, if_pos hop, operatorConditions_onlyNeNull hone,
      Option.bind_some]
  · by_cases hone : onlyNeNull fields = true
    · rw [screenConditions, if_pos hone, conditionsForValue, if_pos hop, operatorConditions_onlyNeNull hone,
        Option.bind_some]
    · have harrays : (∀ v, fields.lookup "in" = some v → v.isArray = true) ∧
          ∀ v, fields.lookup "notIn" = some v → v.isArray = true := by
        rcases hadds with ⟨-, hin, hnot⟩ | ⟨-, -, hin, hnot⟩
        · exact ⟨fun v hv => by simp [hin] at hv, fun v hv => by simp [hnot v hv, FilterValue.isArray]⟩
        · have hnulls : ∀ v : FilterValue, v.isNulls = true → v.isArray = true := fun v hv => by
            cases v with
            | arr => rfl
            | null | bool | number | str | obj => cases hv
          exact ⟨fun v hv => hnulls v (hin v hv), fun v hv => hnulls v (hnot v hv)⟩
      have hone : onlyNeNull fields = false := by simpa using hone
      rw [screenConditions, if_neg (by simp [hone]), conditionsForValue, if_pos hop,
        operatorConditions_scalar ht hone hjson harrays.1 harrays.2, Option.bind_some]
      show selected pg env c.pgType row (rawComparisons fields) = _
      have haccepted := accepted_comparisons h ht halike
      have hholds : ((preparedComparisons env c.pgType fields).all fun a => (a.truth pg env c.pgType row).holds) =
          (rawComparisons fields).all fun a => (a.truth pg env c.pgType row).holds := holds_comparisons h ht halike
      rcases hadds with hnothing | ⟨hnull, hnulls⟩
      · have hadded : (addedConditions env c.pgType fields).all (accepted pg c.pgType) = true ∧
            ((addedConditions env c.pgType fields).all fun a => (a.truth pg env c.pgType row).holds) = true := by
          rcases addedConditions_nothing env c.pgType hnothing with he | he | he
          · simp [he]
          · simp [he, accepted, truth]
          · exact absurd he ht
        refine selected_congr ?_ fun _ => ?_
        · rw [List.all_append, haccepted, hadded.1, Bool.and_true]
        · rw [List.all_append, hholds, hadded.2, Bool.and_true]
      · refine selected_congr ?_ fun _ => ?_
        · rw [List.all_append, haccepted, accepted_addsNulls h hnulls, Bool.and_true]
        · rw [List.all_append, hholds, never_of_null h hnull, Bool.false_and]

/-! ### Values and lists of values -/

theorem selected_of_scalarList (h : pg.Lawful env) (ht : c.pgType ≠ .jsonb) (ha : ScalarListAgrees env c.pgType vs) :
    selected pg env c.pgType row [inListSql c.pgType vs] =
      selected pg env c.pgType row [arrayCondition env c.pgType vs] := by
  unfold ScalarListAgrees at ha
  unfold inListSql arrayCondition
  rw [if_neg ht]
  split_ifs at ha ⊢ with harr hnil hnil
  · -- an empty array equals nothing
    obtain rfl : vs = [] := List.isEmpty_iff.1 hnil
    obtain ⟨hacc, htruth⟩ := h.array c.pgType [] harr ha
    refine selected_congr ?_ fun _ => ?_
    · simpa [accepted] using hacc
    · simp only [List.all_cons, List.all_nil, Bool.and_true, truth, Truth.holds_some]
      cases row.cell with
      | none => rfl
      | some cell => simp [htruth, truthOneOf, Truth.any]
  · obtain ⟨hacc, htruth⟩ := h.array c.pgType vs harr ha
    refine selected_congr ?_ fun _ => ?_
    · simp only [List.all_cons, List.all_nil, Bool.and_true, accepted, hacc, List.all_map, List.isEmpty_map]
      simp only [Bool.not_eq_true] at hnil
      rw [hnil]
      rfl
    · simp only [List.all_cons, List.all_nil, Bool.and_true, truth, funext htruth]
  · exact absurd (List.isEmpty_iff.1 hnil) ha.1
  · have hall : ∀ v ∈ vs, pg.accepts c.pgType .eq (.raw v) = pg.accepts c.pgType .eq (prepareValue env c.pgType v) ∧
        ∀ cell, pg.compare c.pgType .eq cell (.raw v) = pg.compare c.pgType .eq cell (prepareValue env c.pgType v) :=
      fun v hv => ⟨(h.alike ht (ha.2 v hv) .eq).1.symm, fun cell => ((h.alike ht (ha.2 v hv) .eq).2 cell).symm⟩
    refine selected_congr ?_ fun _ => ?_
    · simp only [List.all_cons, List.all_nil, Bool.and_true, accepted, List.all_map, List.isEmpty_map]
      refine congrArg _ (Bool.eq_iff_iff.2 ?_)
      rw [List.all_eq_true, List.all_eq_true]
      refine forall₂_congr fun v hv => ?_
      rw [Function.comp_apply, (hall v hv).1, Function.comp_apply]
    · simp only [List.all_cons, List.all_nil, Bool.and_true, truth, truthOneOf, List.map_map]
      cases row.cell with
      | none => rfl
      | some cell =>
        show (Truth.any _).holds = (Truth.any _).holds
        exact congrArg _ (congrArg _ (List.map_congr_left fun v hv => (hall v hv).2 cell))

theorem conditionsForValue_scalar (hv : v.isJsonbScalar = true) : conditionsForValue env c v =
    if c.pgType = .jsonb then some [jsonbContainsAny [v]] else some [equalityCondition env c v] := by
  cases v with
  | bool | number | str => rfl
  | null | arr | obj => cases hv

/-- A value is bound on both sides, and the blind index is asked for on both or on none. -/
theorem selected_of_scalar (h : pg.Lawful env) (ht : c.pgType ≠ .jsonb) (ha : ScalarAgrees env c v) :
    selected pg env c.pgType row (screenConditions env c v) =
      (conditionsForValue env c v).bind (selected pg env c.pgType row) := by
  have hequal : ∀ v, sentAlike env c.pgType v = true →
      selected pg env c.pgType row [.compare .eq (.raw v)] =
        selected pg env c.pgType row [.compare .eq (prepareValue env c.pgType v)] := by
    intro v hv
    obtain ⟨hacc, htruth⟩ := h.alike ht hv .eq
    refine selected_congr ?_ fun _ => ?_
    · simp [accepted, hacc]
    · simp only [List.all_cons, truth, funext htruth]
  cases v with
  | null => rfl
  | arr vs => exact selected_of_scalarList h ht ha
  | obj fields => exact selected_of_scalarObject h ht ha
  | bool | number =>
    rw [conditionsForValue_scalar rfl, if_neg ht]
    exact hequal _ ha
  | str s =>
    obtain ⟨halike, hbidx⟩ := ha
    rw [conditionsForValue_scalar rfl, if_neg ht, Option.bind_some, equalityCondition, screenConditions]
    by_cases hkey : env.computeBlindIndex.isSome = true ∧ c.hasBidx = true
    · have hnamed : c.namedBidx = false := by simpa using fun hn => hbidx ⟨hkey.1, hkey.2, hn⟩
      -- the column of a blind index is a text column
      have hraw : prepareValue env c.pgType (.str s) = .raw (.str s) := by
        rw [c.hasBidx_text hkey.2]
        rfl
      simp [hkey.1, hkey.2, hnamed, hraw]
    · have hlist : (env.computeBlindIndex.isSome && c.hasBidx) = false := by simpa using hkey
      have hwhere : (env.computeBlindIndex.isSome && !c.namedBidx && c.hasBidx) = false := by
        rw [Bool.and_right_comm, hlist, Bool.false_and]
      simp only [hlist, hwhere, Bool.false_eq_true, if_false]
      exact hequal _ halike

/-! ### JSON columns -/

theorem mem_operands {p : SqlOp × FilterValue} :
    p ∈ operands fields ↔ ∃ key, (key, p.1) ∈ comparisonKeys ∧ fields.lookup key = some p.2 := by
  unfold operands
  rw [List.mem_filterMap]
  constructor
  · rintro ⟨⟨key, op⟩, hk, hp⟩
    obtain ⟨v, hv, rfl⟩ := Option.map_eq_some_iff.1 hp
    exact ⟨key, hk, hv⟩
  · rintro ⟨key, hk, hv⟩
    exact ⟨(key, p.1), hk, by simp [hv]⟩

theorem mem_operands_op {p : SqlOp × FilterValue} (hp : p ∈ operands fields) : p.1 ≠ .eq ∧ p.1 ≠ .like := by
  obtain ⟨key, hkey, -⟩ := mem_operands.1 hp
  simp only [comparisonKeys, List.mem_cons, Prod.mk.injEq, List.not_mem_nil, or_false] at hkey
  rcases hkey with ⟨-, h⟩ | ⟨-, h⟩ | ⟨-, h⟩ | ⟨-, h⟩ | ⟨-, h⟩ <;> simp [h]

theorem onlyNeNull_of_lookup (hl : fields.lookup "ne" = some v) (hv : v.isNull = false) :
    onlyNeNull fields = false := by
  simp [onlyNeNull, hl, hv]

/-- `ne` emits one condition on a column of options, where it is not the field's only `null`. -/
theorem mem_emitNotEqual (hl : fields.lookup "ne" = some v) (hone : onlyNeNull fields = false) {a : SqlCondition} :
    a ∈ emitNotEqual env .jsonb fields ↔
      a = (jsonbNotEqualCondition v).getD (.compare .ne (prepareValue env .jsonb v)) := by
  rw [emitNotEqual, hl]
  simp only [hone, Bool.false_eq_true, if_false, if_true]
  cases jsonbNotEqualCondition v <;> exact List.mem_singleton

theorem accepted_emitNotEqual (h : pg.Lawful env) {a : SqlCondition} (ha : a ∈ emitNotEqual env .jsonb fields) :
    a.accepted pg .jsonb = true := by
  cases hl : fields.lookup "ne" with
  | none => simp [emitNotEqual, hl] at ha
  | some v =>
    by_cases hone : onlyNeNull fields = true
    · rw [emitNotEqual, hl] at ha
      simp only [if_pos hone, List.mem_singleton] at ha
      rw [ha]
      rfl
    · rw [(mem_emitNotEqual hl (by simpa using hone)).1 ha]
      cases v with
      | null => exact (h.null .jsonb .ne).1 nofun
      | obj => exact (h.json _).1 .ne nofun
      | bool | number | str => rfl
      | arr vs => cases vs <;> rfl

theorem accepted_comparisonEmitter {key : String} {op : SqlOp} {a : SqlCondition}
    (ha : a ∈ comparisonEmitter env .jsonb key op fields) : a = .never ∧ (fields.lookup key).isSome = true := by
  unfold comparisonEmitter at ha
  split at ha
  · cases ha
  · next hv => exact ⟨List.mem_singleton.1 ha, by simp [hv]⟩

theorem textAt_of_match {m : FilterValue} {a : SqlCondition} (h : jsonTextMatchCondition m = some a) :
    ∃ keys text, a = .textAt keys text := by
  unfold jsonTextMatchCondition at h
  split at h
  · split at h
    · obtain ⟨keys, -, rfl⟩ := Option.map_eq_some_iff.1 h
      exact ⟨_, _, rfl⟩
    · cases h
  · cases h

/-- The conditions of text matches. -/
theorem mapM_jsonTextMatch (ms : List FilterValue) :
    ((ms.mapM jsonTextMatchCondition).isSome = ms.all fun m => (jsonTextMatchCondition m).isSome) ∧
      ∀ conditions, ms.mapM jsonTextMatchCondition = some conditions →
        (conditions = [] → ms = []) ∧ ∀ a ∈ conditions, ∃ keys text, a = .textAt keys text := by
  induction ms with
  | nil => exact ⟨rfl, fun conditions hc => by cases hc; simp⟩
  | cons m ms ih =>
    rw [List.mapM_cons]
    cases hm : jsonTextMatchCondition m with
    | none => exact ⟨by simp [hm], fun conditions hc => by simp at hc⟩
    | some a =>
      cases hms : ms.mapM jsonTextMatchCondition with
      | none => exact ⟨by simpa [hm, hms] using ih.1, fun conditions hc => by simp at hc⟩
      | some rest =>
        refine ⟨by simpa [hm, hms] using ih.1, fun conditions hc => ?_⟩
        simp only [Option.bind_eq_bind, Option.bind_some, Option.pure_def, Option.some.injEq] at hc
        subst hc
        refine ⟨fun h => by simp at h, fun b hb => ?_⟩
        rcases List.mem_cons.1 hb with rfl | hb
        · exact textAt_of_match hm
        · exact (ih.2 rest hms).2 b hb

/-- The conditions of `jsonText`, where it does not throw: it is the only key. -/
theorem emitJsonText_jsonb {conditions : List SqlCondition} (hc : emitJsonText .jsonb fields = some conditions) :
    (∀ a ∈ conditions, a = .never ∨ ∃ keys text, a = .textAt keys text) ∧
      ((fields.lookup "jsonText").isSome = true → fields.length ≤ 1 ∧ conditions ≠ []) := by
  unfold emitJsonText at hc
  split at hc
  · next hl =>
    cases hc
    exact ⟨fun _ ha => absurd ha List.not_mem_nil, fun h => by rw [hl] at h; cases h⟩
  · next m hl =>
    split_ifs at hc with hlen
    split at hc
    · cases hc
      exact ⟨fun a ha => .inl (List.mem_singleton.1 ha), fun _ => ⟨not_lt.1 hlen, by simp⟩⟩
    · next ms hnil =>
      obtain ⟨hempty, htext⟩ := (mapM_jsonTextMatch ms).2 conditions hc
      exact ⟨fun a ha => .inr (htext a ha), fun _ => ⟨not_lt.1 hlen, fun h => hnil (hempty h)⟩⟩
    · obtain ⟨a, ha, rfl⟩ := Option.map_eq_some_iff.1 hc
      refine ⟨fun b hb => .inr ?_, fun _ => ⟨not_lt.1 hlen, by simp⟩⟩
      rw [List.mem_singleton.1 hb]
      exact textAt_of_match ha

/-- The conditions of an object on a jsonb column, by their emitters. -/
structure JsonbConditions (env : FilterEnv) (fields : List (String × FilterValue))
    (conditions : List SqlCondition) : Prop where
  jsonText : ∃ texts, emitJsonText .jsonb fields = some texts ∧ ∀ a ∈ texts, a ∈ conditions
  comparison : ∀ key op, key ∈ ["gt", "gte", "lt", "lte", "like"] →
    (fields.lookup key).isSome = true → comparisonEmitter env .jsonb key op fields = [.never] ∧ .never ∈ conditions
  notEqual : ∀ a ∈ emitNotEqual env .jsonb fields, a ∈ conditions
  isIn : ∀ v, fields.lookup "in" = some v → ∃ vs, v = .arr vs ∧ jsonbContainsAny vs ∈ conditions
  notIn : fields.lookup "notIn" = none
  mem : ∀ a ∈ conditions, ((a = .never ∨ ∃ keys text, a = .textAt keys text) ∧
      ∃ key ∈ ["jsonText", "gt", "gte", "lt", "lte", "like"], (fields.lookup key).isSome = true) ∨
    a ∈ emitNotEqual env .jsonb fields ∨ ∃ vs, fields.lookup "in" = some (.arr vs) ∧ a = jsonbContainsAny vs

theorem operatorConditions_jsonb {conditions : List SqlCondition}
    (hc : operatorConditions env .jsonb fields = some conditions) : JsonbConditions env fields conditions := by
  unfold operatorConditions at hc
  simp only [Option.bind_eq_bind, Option.bind_eq_some_iff, Option.some.injEq] at hc
  obtain ⟨texts, htexts, isIn, hin, notIn, hnot, rfl⟩ := hc
  have hnotIn : fields.lookup "notIn" = none := by
    unfold emitNotIn at hnot
    split at hnot
    · assumption
    · cases hnot
    · cases hnot
  obtain rfl : notIn = [] := by
    rw [emitNotIn, hnotIn] at hnot
    exact (Option.some.inj hnot).symm
  have hisIn : ∀ v, fields.lookup "in" = some v → ∃ vs, v = .arr vs ∧ isIn = [jsonbContainsAny vs] := by
    intro v hv
    rw [emitIn, hv] at hin
    cases v with
    | arr vs => exact ⟨vs, rfl, (Option.some.inj hin).symm⟩
    | null | bool | number | str | obj => cases hin
  refine ⟨⟨texts, htexts, fun a ha => by simp [ha]⟩, fun key op hkey hk => ?_, fun a ha => by simp [ha],
    fun v hv => ?_, hnotIn, fun a ha => ?_⟩
  · have hnever : ∀ op, comparisonEmitter env .jsonb key op fields = [.never] := fun op => by
      unfold comparisonEmitter
      split
      · next hl => simp [hl] at hk
      · rfl
    refine ⟨hnever op, ?_⟩
    simp only [List.mem_cons, List.not_mem_nil, or_false] at hkey
    rcases hkey with rfl | rfl | rfl | rfl | rfl <;> simp [hnever]
  · obtain ⟨vs, rfl, rfl⟩ := hisIn v hv
    exact ⟨vs, rfl, by simp⟩
  · simp only [List.append_nil, List.mem_append] at ha
    have hcompare : ∀ key op, key ∈ ["jsonText", "gt", "gte", "lt", "lte", "like"] →
        a ∈ comparisonEmitter env .jsonb key op fields → (a = .never ∨ ∃ keys text, a = .textAt keys text) ∧
          ∃ key ∈ ["jsonText", "gt", "gte", "lt", "lte", "like"], (fields.lookup key).isSome = true :=
      fun key op hkey ha => ⟨.inl (accepted_comparisonEmitter ha).1, key, hkey, (accepted_comparisonEmitter ha).2⟩
    rcases ha with (((ha | ((ha | ha) | ha) | ha) | ha) | ha) | ha
    · obtain ⟨hform, -⟩ := emitJsonText_jsonb htexts
      refine .inl ⟨hform a ha, "jsonText", by simp, ?_⟩
      by_contra hnone
      rw [emitJsonText, Option.not_isSome_iff_eq_none.1 hnone] at htexts
      cases htexts
      cases ha
    · exact .inl (hcompare "gt" .gt (by simp) ha)
    · exact .inl (hcompare "gte" .gte (by simp) ha)
    · exact .inl (hcompare "lt" .lt (by simp) ha)
    · exact .inl (hcompare "lte" .lte (by simp) ha)
    · exact .inr (.inl ha)
    · exact .inl (hcompare "like" .like (by simp) ha)
    · cases hl : fields.lookup "in" with
      | none =>
        rw [emitIn, hl] at hin
        cases hin
        cases ha
      | some v =>
        obtain ⟨vs, rfl, rfl⟩ := hisIn v hl
        exact .inr (.inr ⟨vs, rfl, List.mem_singleton.1 ha⟩)

/-- Where it throws. -/
theorem operatorConditions_jsonb_some (env : FilterEnv) (hj : fields.lookup "jsonText" = none)
    (hin : ∀ v, fields.lookup "in" = some v → v.isArray = true) (hnot : fields.lookup "notIn" = none) :
    (operatorConditions env .jsonb fields).isSome = true := by
  have hnotIn : emitNotIn env .jsonb fields = some [] := by rw [emitNotIn, hnot]
  have hjson : emitJsonText .jsonb fields = some [] := by rw [emitJsonText, hj]
  unfold operatorConditions
  rw [hjson, emitIn_some hin, hnotIn]
  rfl

theorem accepted_operatorConditions (h : pg.Lawful env) {conditions : List SqlCondition}
    (hc : operatorConditions env .jsonb fields = some conditions) : ∀ a ∈ conditions, a.accepted pg .jsonb = true := by
  intro a ha
  rcases (operatorConditions_jsonb hc).mem a ha with ⟨rfl | ⟨keys, text, rfl⟩, -⟩ | ha | ⟨vs, -, rfl⟩
  · rfl
  · rfl
  · exact accepted_emitNotEqual h ha
  · exact accepted_containsAny

/-- The object is never met on either side. -/
theorem selected_of_jsonbObject (h : pg.Lawful env) (ht : c.pgType = .jsonb) (ha : JsonbObjectAgrees fields) :
    selected pg env c.pgType row (screenConditions env c (.obj fields)) =
      (conditionsForValue env c (.obj fields)).bind (selected pg env c.pgType row) := by
  obtain ⟨hop, hobject⟩ := ha
  rw [conditionsForValue, if_pos hop, screenConditions]
  by_cases hone : onlyNeNull fields = true
  · rw [if_pos hone, operatorConditions_onlyNeNull hone, Option.bind_some]
  · obtain ⟨hne, hnull, hjson, hnot, hin⟩ := hobject.resolve_left hone
    obtain ⟨conditions, hc⟩ := Option.isSome_iff_exists.1 (operatorConditions_jsonb_some env hjson hin hnot)
    obtain ⟨p, hp⟩ := List.exists_mem_of_ne_nil _ hne
    have hlist : selected pg env c.pgType row (rawComparisons fields) = some false := by
      refine selected_never (fun a ha => ?_) ?_
      · obtain ⟨⟨op, v⟩, hp, rfl⟩ := List.mem_map.1 ha
        have hv := hnull _ hp
        cases v with
        | null => exact (h.null c.pgType op).1 fun hlike => absurd hlike (mem_operands_op hp).2
        | bool | number | str | arr | obj => cases hv
      · have hfalse : ((rawComparisons fields).all fun a => (a.truth pg env c.pgType row).holds) = false :=
          never_of_null h ⟨p, hp, hnull p hp⟩
        obtain ⟨a, ha, hnot⟩ := List.all_eq_false.1 hfalse
        exact ⟨a, ha, by simpa using hnot⟩
    rw [if_neg hone, ht, hc, Option.bind_some]
    rw [ht] at hlist
    refine hlist.trans (selected_never (accepted_operatorConditions h hc) ?_).symm
    obtain ⟨key, hkey, hl⟩ := mem_operands.1 hp
    have hall := operatorConditions_jsonb hc
    obtain ⟨op, v⟩ := p
    have hv := hnull _ hp
    by_cases hkne : key = "ne"
    · -- a comparison with `NULL`, as it is not alone
      subst hkne
      cases v with
      | null =>
        refine ⟨.compare .ne (.raw .null), hall.notEqual _ ?_, ?_⟩
        · rw [emitNotEqual, hl]
          simp [hone, jsonbNotEqualCondition, prepareValue]
        · show Truth.holds (row.cell.bind fun cell => pg.compare .jsonb .ne cell (.raw .null)) = false
          rw [funext fun cell => (h.null .jsonb .ne).2 cell]
          cases row.cell <;> rfl
      | bool | number | str | arr | obj => cases hv
    · refine ⟨.never, (hall.comparison key op ?_ (by simp [hl])).2, rfl⟩
      simp only [comparisonKeys, List.mem_cons, Prod.mk.injEq, List.not_mem_nil, or_false] at hkey
      rcases hkey with ⟨rfl, -⟩ | ⟨rfl, -⟩ | ⟨rfl, -⟩ | ⟨rfl, -⟩ | ⟨rfl, -⟩
      all_goals first | exact absurd rfl hkne | simp

/-! ### Lists of options -/

/-- The row has `NULL` or a list of options. -/
def FilterRow.Options {S : Type} (row : FilterRow S) : Prop :=
  row.cell = none ∨ ∃ options, row.cell = some (.json (optionsValue options))

theorem FilterRow.Fits.options (hf : row.Fits c) (hc : c.optionList = true) : row.Options := by
  cases hcell : row.cell with
  | none => exact .inl hcell
  | some cell =>
    have hfit := hf cell hcell
    rw [if_pos hc] at hfit
    obtain ⟨options, rfl⟩ := hfit
    exact .inr ⟨options, hcell⟩

/-- An array is contained where each of its values is one of the options. -/
theorem holds_contains (h : pg.Lawful env) {options : List String}
    (hcell : row.cell = some (.json (optionsValue options))) :
    (truth pg env t row (.contains (.arr vs))).holds = vs.all fun v => options.any fun s => v.isStr s := by
  rw [truth, hcell, Option.bind_some, Truth.holds_some, h.contains]

theorem holds_containsAny_null (hcell : row.cell = none) :
    (truth pg env t row (jsonbContainsAny vs)).holds = false := by
  rw [jsonbContainsAny, holds_disjoin, List.any_eq_false]
  intro a ha
  obtain ⟨v, -, hv⟩ := List.mem_flatMap.1 ha
  rcases List.mem_cons.1 hv with rfl | hv
  · simp [truth, hcell]
  · split at hv
    · rw [List.mem_singleton.1 hv]
      simp [truth, hcell]
    · cases hv

theorem holds_containsAny (h : pg.Lawful env) {options : List String}
    (hcell : row.cell = some (.json (optionsValue options))) :
    (truth pg env t row (jsonbContainsAny vs)).holds = vs.any fun v => options.any fun s => v.isStr s := by
  rw [jsonbContainsAny, holds_disjoin, List.any_flatMap]
  refine congrArg _ (funext fun v => ?_)
  have hself : (truth pg env t row (.contains (.arr [v]))).holds = options.any fun s => v.isStr s := by
    rw [holds_contains h hcell, List.all_cons, List.all_nil, Bool.and_true]
  rw [List.any_cons, hself]
  split
  · next hv =>
    have hscalar : v.isArray = false := by
      cases v with
      | bool | number | str => rfl
      | null | arr | obj => cases hv
    rw [List.any_cons, List.any_nil, Bool.or_false, truth, hcell, Option.bind_some, Truth.holds_some,
      h.equalsJson options v hscalar, Bool.or_false]
  · rw [List.any_nil, Bool.or_false]

/-- The list asks for an object among the options. -/
theorem selected_list_object (h : pg.Lawful env) (hr : row.Options) (v : FilterValue)
    (hv : ∀ s, v.isStr s = false) : selected pg env t row [.contains (.arr [v])] = some false := by
  refine selected_never (fun a ha => ?_) ⟨_, .head _, ?_⟩
  · rw [List.mem_singleton.1 ha]
    rfl
  · rcases hr with hcell | ⟨options, hcell⟩
    · simp [truth, hcell]
    · simp [holds_contains h hcell, hv]

/-- What `ne` excludes it is not true of. -/
theorem notEqual_of_excludes (h : pg.Lawful env) {s : String} {options : List String}
    (hcell : row.cell = some (.json (optionsValue options))) (hs : s ∈ options) (hx : neExcludes fields s = true) :
    ∃ a ∈ emitNotEqual env .jsonb fields, (truth pg env .jsonb row a).holds = false := by
  unfold neExcludes at hx
  have hcontains : ∀ vs : List FilterValue, (vs.all fun v => v.isStr s) = true →
      pg.contains (optionsValue options) (.arr vs) = true := by
    intro vs hvs
    rw [h.contains, List.all_eq_true]
    exact fun v hv => List.any_eq_true.2 ⟨s, hs, List.all_eq_true.1 hvs v hv⟩
  cases hl : fields.lookup "ne" with
  | none => simp [hl] at hx
  | some v =>
    rw [hl] at hx
    cases v with
    | obj => cases hx
    | null =>
      have hone : onlyNeNull fields = false := by simp [onlyNeNull, hl, FilterValue.isNull] at hx ⊢; exact hx
      refine ⟨_, (mem_emitNotEqual hl hone).2 rfl, ?_⟩
      show Truth.holds (row.cell.bind fun cell => pg.compare .jsonb .ne cell (.raw .null)) = false
      rw [hcell, Option.bind_some, (h.null .jsonb .ne).2]
      rfl
    | arr vs =>
      refine ⟨_, (mem_emitNotEqual hl (onlyNeNull_of_lookup hl rfl)).2 rfl, ?_⟩
      cases vs with
      | nil => rfl
      | cons v vs => simp [jsonbNotEqualCondition, truth, hcell, hcontains (v :: vs) hx]
    | bool | number => cases hx
    | str s' =>
      refine ⟨_, (mem_emitNotEqual hl (onlyNeNull_of_lookup hl rfl)).2 rfl, ?_⟩
      simp only [jsonbNotEqualCondition, Option.getD_some, truth, hcell, Option.bind_some,
        hcontains [.str s'] (by simpa using hx)]
      rfl

theorem equalityCondition_obj :
    equalityCondition env c (.obj fields) = .compare .eq (prepareValue env c.pgType (.obj fields)) := rfl

/-- The object is never met on either side, as operators or as an object. -/
theorem where_of_optionObject (h : pg.Lawful env) (ht : c.pgType = .jsonb) (hr : row.Options)
    (ha : OptionObjectAgrees fields) :
    (conditionsForValue env c (.obj fields)).bind (selected pg env c.pgType row) = some false := by
  rw [conditionsForValue, ht]
  by_cases hop : isWhereOperator fields = true
  · rw [if_pos hop]
    have hobject := ha.resolve_left (by simp [hop])
    cases hjson : fields.lookup "jsonText" with
    | some m =>
      rw [hjson] at hobject
      obtain ⟨hlen, hm⟩ := hobject
      have hone : ∀ key, key ≠ "jsonText" → fields.lookup key = none := by
        intro key hkey
        rcases fields with _ | ⟨⟨k, v⟩, _ | ⟨_, _⟩⟩
        · rfl
        · by_cases hk : "jsonText" = k
          · subst hk
            simp [List.lookup_cons, show (key == "jsonText") = false by simpa using hkey]
          · simp [List.lookup_cons, show ("jsonText" == k) = false by simpa using hk] at hjson
        · simp at hlen
      have hsome : (operatorConditions env .jsonb fields).isSome = true := by
        have htexts : (emitJsonText .jsonb fields).isSome = true := by
          unfold emitJsonText
          rw [hjson]
          dsimp only
          rw [if_neg (not_lt.2 hlen), if_neg (by simp)]
          split
          · rfl
          · next ms _ => rw [(mapM_jsonTextMatch ms).1]; exact hm
          · next hnil harr =>
            cases m with
            | arr ms => exact absurd rfl (harr ms)
            | null | bool | number | str => cases hm
            | obj o => rw [Option.isSome_map]; exact hm
        obtain ⟨texts, htexts⟩ := Option.isSome_iff_exists.1 htexts
        unfold operatorConditions emitIn emitNotIn
        rw [htexts, hone "in" (by decide), hone "notIn" (by decide)]
        rfl
      obtain ⟨conditions, hc⟩ := Option.isSome_iff_exists.1 hsome
      rw [hc, Option.bind_some]
      refine selected_never (accepted_operatorConditions h hc) ?_
      obtain ⟨texts, htexts, hmem⟩ := (operatorConditions_jsonb hc).jsonText
      obtain ⟨hform, hne⟩ := emitJsonText_jsonb htexts
      obtain ⟨a, hin⟩ := List.exists_mem_of_ne_nil _ (hne (by simp [hjson])).2
      refine ⟨a, hmem a hin, ?_⟩
      rcases hform a hin with rfl | ⟨keys, text, rfl⟩
      · rfl
      · -- an array has no text under a key
        rcases hr with hcell | ⟨options, hcell⟩
        · simp [truth, hcell]
        · have hnone : keys.findSome? (pg.textAt (optionsValue options)) = none :=
            List.findSome?_eq_none_iff.2 fun key _ => h.textAt options key
          simp only [truth, hcell, Option.bind_some, hnone]
          rfl
    | none =>
      rw [hjson] at hobject
      obtain ⟨hnot, hin, hnever⟩ := hobject
      obtain ⟨conditions, hc⟩ := Option.isSome_iff_exists.1 (operatorConditions_jsonb_some env hjson hin hnot)
      have hall := operatorConditions_jsonb hc
      rw [hc, Option.bind_some]
      refine selected_never (accepted_operatorConditions h hc) ?_
      rcases hnever with ⟨key, hkey, hsome⟩ | hnever
      · exact ⟨.never, (hall.comparison key .eq hkey hsome).2, rfl⟩
      · cases hl : fields.lookup "in" with
        | some v =>
          obtain ⟨vs, rfl, hmem⟩ := hall.isIn v hl
          rw [hl] at hnever
          rcases hr with hcell | ⟨options, hcell⟩
          · exact ⟨_, hmem, holds_containsAny_null hcell⟩
          · by_cases hany : ∃ v ∈ vs, ∃ s ∈ options, v.isStr s = true
            · obtain ⟨v, hv, s, hs, hvs⟩ := hany
              obtain ⟨a, hne, hfalse⟩ := notEqual_of_excludes h hcell hs (hnever s ⟨v, hv, hvs⟩)
              exact ⟨a, hall.notEqual a hne, hfalse⟩
            · refine ⟨_, hmem, ?_⟩
              rw [holds_containsAny h hcell, List.any_eq_false]
              intro v hv hvs
              obtain ⟨s, hs, hstr⟩ := List.any_eq_true.1 hvs
              exact hany ⟨v, hv, s, hs, hstr⟩
        | none =>
          rw [hl] at hnever
          have hne : ∃ a ∈ emitNotEqual env .jsonb fields, (truth pg env .jsonb row a).holds = false := by
            have hn : neNever fields = true := hnever
            unfold neNever at hn
            cases hlne : fields.lookup "ne" with
            | none => simp [hlne] at hn
            | some v =>
              rw [hlne] at hn
              rcases v with _ | _ | _ | _ | _ | _
              · have hone : onlyNeNull fields = false := by
                  simp [onlyNeNull, hlne, FilterValue.isNull] at hn ⊢
                  exact hn
                refine ⟨_, (mem_emitNotEqual hlne hone).2 rfl, ?_⟩
                show Truth.holds (row.cell.bind fun cell => pg.compare .jsonb .ne cell (.raw .null)) = false
                rw [funext fun cell => (h.null .jsonb .ne).2 cell]
                cases row.cell <;> rfl
              · cases hn
              · cases hn
              · cases hn
              · next vs =>
                cases vs with
                | nil => exact ⟨.never, (mem_emitNotEqual hlne (onlyNeNull_of_lookup hlne rfl)).2 rfl, rfl⟩
                | cons v vs => cases hn
              · cases hn
          obtain ⟨a, hmem, hfalse⟩ := hne
          exact ⟨a, hall.notEqual a hmem, hfalse⟩
  · rw [if_neg hop]
    refine selected_never (fun a ha => ?_) ⟨_, .head _, ?_⟩
    · rw [List.mem_singleton.1 ha, equalityCondition_obj, ht]
      exact (h.json _).1 .eq nofun
    · rw [equalityCondition_obj, ht]
      show Truth.holds (row.cell.bind fun cell => pg.compare .jsonb .eq cell (.json (.obj fields))) = false
      rcases hr with hcell | ⟨options, hcell⟩
      · rw [hcell]
        rfl
      · rw [hcell, Option.bind_some, (h.json _).2, h.equalsJson options _ rfl]
        rfl

theorem accepted_contains : (contains v).accepted pg t = true := rfl

theorem not_array_of_scalar (hv : v.isJsonbScalar = true) : v.isArray = false := by
  cases v with
  | bool | number | str => rfl
  | null | arr | obj => cases hv

/-- `NOT IN` a list of options, with `NULL` as an empty one: the scalar arm of the where clause adds nothing. -/
theorem selected_notEqual_scalar (h : pg.Lawful env) (hr : row.Options) (hv : v.isJsonbScalar = true) :
    selected pg env t row [.or .isNull (.not (.contains (.arr [v])))] =
      selected pg env t row [.or .isNull (.not (.or (.contains (.arr [v])) (.equalsJson v)))] := by
  refine selected_congr rfl fun _ => ?_
  rcases hr with hcell | ⟨options, hcell⟩
  · simp only [List.all_cons, truth, hcell]
    rfl
  · have heq := h.equalsJson options v (not_array_of_scalar hv)
    simp only [List.all_cons, List.all_nil, Bool.and_true, truth, hcell, Option.bind_some, heq]
    cases pg.contains (optionsValue options) (.arr [v]) <;> rfl

theorem arrayCondition_jsonb (ht : t = .jsonb) : arrayCondition env t (v :: vs) = jsonbContainsAny (v :: vs) := by
  subst ht
  rfl

/-- The filters on a list of options that are read alike. -/
theorem selected_of_optionList (h : pg.Lawful env) (hc : c.optionList = true) (hr : row.Options) {op : FilterOp}
    (ha : OptionListAgrees op v) :
    selected pg env c.pgType row (applyMultiSelectFilter op v) =
      (buildWhereClause env c op v).bind (selected pg env c.pgType row) := by
  have ht := c.optionList_jsonb hc
  have hsingle : ∀ {l : List FilterValue}, (∀ s, (∃ v ∈ l, v.isStr s = true) → ∀ v ∈ l, v.isStr s = true) → l ≠ [] →
      selected pg env c.pgType row [.contains (.arr l)] = selected pg env c.pgType row [jsonbContainsAny l] := by
    intro l hl hne
    refine selected_congr ?_ fun _ => ?_
    · simp [accepted_contains, accepted_containsAny]
    · simp only [List.all_cons, List.all_nil, Bool.and_true]
      rcases hr with hcell | ⟨options, hcell⟩
      · rw [holds_containsAny_null hcell]
        simp [truth, hcell]
      · rw [holds_contains h hcell, holds_containsAny h hcell, Bool.eq_iff_iff, List.all_eq_true, List.any_eq_true]
        constructor
        · intro hall
          obtain ⟨v, hv⟩ := List.exists_mem_of_ne_nil _ hne
          exact ⟨v, hv, hall v hv⟩
        · rintro ⟨v, hv, hany⟩ v' hv'
          obtain ⟨s, hs, hvs⟩ := List.any_eq_true.1 hany
          exact List.any_eq_true.2 ⟨s, hs, hl s ⟨v, hv, hvs⟩ v' hv'⟩
  have hnever : ∀ key op', (key, op') ∈ [("lt", SqlOp.lt), ("gt", .gt), ("lte", .lte), ("gte", .gte)] →
      (conditionsForValue env c (.obj [(key, v)])).bind (selected pg env c.pgType row) = some false := by
    intro key op' hkey
    have hconditions : conditionsForValue env c (.obj [(key, v)]) = some [.never] := by
      simp only [List.mem_cons, Prod.mk.injEq, List.not_mem_nil, or_false] at hkey
      rcases hkey with ⟨rfl, -⟩ | ⟨rfl, -⟩ | ⟨rfl, -⟩ | ⟨rfl, -⟩ <;>
        simp [conditionsForValue, isWhereOperator, operatorKeys, operatorConditions, emitJsonText, comparisonEmitter,
          emitNotEqual, emitIn, emitNotIn, List.lookup_cons, ht]
    rw [hconditions]
    rfl
  have hne : conditionsForValue env c (.obj [("ne", v)]) = some (emitNotEqual env .jsonb [("ne", v)]) := by
    simp [conditionsForValue, isWhereOperator, operatorKeys, operatorConditions, emitJsonText, comparisonEmitter,
      emitIn, emitNotIn, List.lookup_cons, ht]
  have hnotEqual : v.isNull = false → (∀ o, v ≠ .obj o) →
      emitNotEqual env .jsonb [("ne", v)] = (jsonbNotEqualCondition v).toList := by
    intro hnull hobj
    simp only [emitNotEqual, List.lookup_cons, beq_self_eq_true, onlyNeNull, Option.any_some, hnull, Bool.false_and]
    rcases v with _ | _ | _ | _ | vs | o
    · cases hnull
    · rfl
    · rfl
    · rfl
    · cases vs <;> rfl
    · exact absurd rfl (hobj o)
  cases op with
  | lt => exact (hnever "lt" .lt (by simp)).symm
  | gt => exact (hnever "gt" .gt (by simp)).symm
  | lte => exact (hnever "lte" .lte (by simp)).symm
  | gte => exact (hnever "gte" .gte (by simp)).symm
  | eq =>
    cases v with
    | null => exact ha.elim
    | obj o => exact (selected_list_object h hr _ fun _ => rfl).trans (where_of_optionObject h ht hr ha).symm
    | arr vs =>
      cases vs with
      | nil => rfl
      | cons v vs =>
        show _ = selected pg env c.pgType row [arrayCondition env c.pgType (v :: vs)]
        rw [arrayCondition_jsonb ht]
        exact hsingle ha (by simp)
    | bool | number | str =>
      rw [buildWhereClause, buildFilterWhere]
      dsimp only
      rw [conditionsForValue_scalar rfl, if_pos ht]
      exact hsingle (fun s hs w' hw' => by
        obtain ⟨w, hw, hws⟩ := hs
        rw [List.mem_singleton.1 hw'] at *; rwa [List.mem_singleton.1 hw] at hws) (by simp)
  | ne =>
    rw [buildWhereClause, buildFilterWhere]
    dsimp only
    rw [hne, Option.bind_some]
    cases v with
    | null | obj => exact ha.elim
    | arr vs =>
      rw [hnotEqual rfl fun _ => by simp]
      cases vs <;> rfl
    | bool | number | str =>
      rw [hnotEqual rfl fun _ => by simp]
      exact selected_notEqual_scalar h hr rfl
  | «in» =>
    rcases v with _ | _ | _ | _ | vs | _
    · rfl
    · rfl
    · rfl
    · rfl
    · cases vs with
      | nil => rfl
      | cons v vs =>
        show _ = selected pg env c.pgType row [arrayCondition env c.pgType (v :: vs)]
        rw [arrayCondition_jsonb ht, applyMultiSelectFilter]
        refine selected_congr ?_ fun _ => ?_
        · simp [accepted_disjoin, accepted_contains, accepted_containsAny]
        · simp only [List.all_cons, List.all_nil, Bool.and_true]
          rcases hr with hcell | ⟨options, hcell⟩
          · rw [holds_containsAny_null hcell, holds_disjoin, List.any_eq_false]
            intro a ha
            obtain ⟨w, -, rfl⟩ := List.mem_map.1 ha
            simp [truth, hcell]
          · rw [holds_containsAny h hcell, holds_disjoin, List.any_map]
            refine congrArg _ (funext fun w => ?_)
            rw [Function.comp_apply, holds_contains h hcell, List.all_cons, List.all_nil, Bool.and_true]
    · rfl

/-- Filters that are read alike select the same rows. -/
theorem sameRows_of_agrees {op : FilterOp} (hallowed : isListFilterAllowed c op v = true) (ha : Agrees env c op v) :
    SameRows env c op v := by
  intro pg h row hf
  have hlist : applyListFilter env c .all op v =
      some (if c.optionList then applyMultiSelectFilter op v else applyScreenFilter env c op v) := by
    simp [applyListFilter, hallowed]
  rw [hlist, Option.bind_some]
  unfold Agrees at ha
  by_cases hc : c.optionList = true
  · rw [if_pos hc] at ha ⊢
    exact selected_of_optionList h hc (hf.options hc) ha
  · rw [if_neg hc] at ha ⊢
    unfold applyScreenFilter buildWhereClause
    cases hscreen : buildFilterWhere op v with
    | none => rfl
    | some screen =>
      rw [hscreen] at ha
      dsimp only at ha ⊢
      by_cases ht : c.pgType = .jsonb
      · rw [if_pos ht] at ha
        cases screen with
        | null => rfl
        | obj fields => exact selected_of_jsonbObject h ht ha
        | bool | number | str | arr => exact ha.elim
      · rw [if_neg ht] at ha
        exact selected_of_scalar h ht ha

end

/-! ## Readings that differ -/

section
variable {env : FilterEnv} {t : PgType} {c : FilterColumn} {fields : List (String × FilterValue)} {v : FilterValue}
  {vs : List FilterValue} {strict lenient : Bool}

open SqlCondition

/-- Postgres, as strict as it may be: values with `=` and `LIKE` are refused, and `LIKE` on what is no text (`strict`),
and JSON columns and parts of a millisecond without a cast (unless `lenient`). -/
def probeAccepts (env : FilterEnv) (strict lenient : Bool) (t : PgType) (op : SqlOp) (v : Sent) : Bool :=
  match v with
  | .raw .null => !(strict && op == .like && t != .text)
  | .json _ => true
  | .raw (.str s) =>
    !(strict && (op == .eq || op == .like)) && (lenient || (t != .jsonb && sentAlike env t (.str s)))
  | .raw _ => !(strict && (op == .eq || op == .like)) && (lenient || t != .jsonb)
  | .text n => !(strict && (op == .eq || op == .like)) && t.hasNumber n
  | .instant _ => !(strict && (op == .eq || op == .like))

/-- Every comparison with a value is true. -/
def probeCompare (op : SqlOp) (cell : CellValue Unit) (v : Sent) : Truth :=
  match v, cell with
  | .raw .null, _ => none
  | .json _, .json a => some (if op = .eq then !a.isArray else true)
  | _, _ => some true

/-- The two hold the same string, or `NULL`. -/
def probeSame (a b : FilterValue) : Bool :=
  match a with
  | .str s => b.isStr s
  | .null => b.isNull
  | _ => false

abbrev probe (env : FilterEnv) (strict lenient : Bool) : Postgres where
  Scalar := Unit
  accepts := probeAccepts env strict lenient
  compare _ := probeCompare
  acceptsArray t vs :=
    let each := vs.all fun v => probeAccepts env strict lenient t .eq (prepareValue env t v)
    if vs.all (listedAlike env t) then each else !each
  equalsAny t cell vs := Truth.any (vs.map fun v => probeCompare .eq cell (prepareValue env t v))
  contains a b :=
    match a, b with
    | .arr xs, .arr ys => ys.all fun y => xs.any fun x => probeSame x y
    | _, _ => false
  equalsJson a _ := !a.isArray
  textAt _ _ := none

theorem probe_lawful (env : FilterEnv) (strict lenient : Bool) : (probe env strict lenient).Lawful env where
  null t op := by
    refine ⟨fun hlike => ?_, fun cell => by cases cell <;> rfl⟩
    by_cases hop : op = .like
    · simp [probeAccepts, hlike hop]
    · simp [probeAccepts, hop]
  number t n hi hn op := by
    have ht : t ≠ .jsonb := fun he => by simp [he, PgType.isInteger] at hi
    refine ⟨?_, fun cell => by cases cell <;> rfl⟩
    simp [probeAccepts, hn, ht]
  instant t s ns hts hns hreads hz op := by
    have ht : t ≠ .jsonb := fun he => by simp [he, PgType.isTimestamptz] at hts
    refine ⟨?_, fun cell => by cases cell <;> rfl⟩
    simp [probeAccepts, sentAlike, hns, hreads, hz, ht]
  array t vs harr hall := by
    refine ⟨?_, fun cell => ?_⟩
    · show (if vs.all (listedAlike env t) then _ else _) = _
      rw [if_pos (List.all_eq_true.2 hall)]
    · rw [truthOneOf, List.map_map]
      rfl
  contains options vs := by
    show (vs.all fun y => (options.map FilterValue.str).any fun x => probeSame x y) = _
    refine congrArg _ (funext fun y => ?_)
    rw [List.any_map]
    rfl
  equalsJson _ _ _ := rfl
  textAt _ _ := rfl
  json v := ⟨fun _ _ => rfl, fun a => rfl⟩

/-- What the filter asks of the probes. -/
def ProbesAgree (env : FilterEnv) (c : FilterColumn) (list : List SqlCondition)
    (clause : Option (List SqlCondition)) : Prop :=
  ∀ (strict lenient : Bool) (row : FilterRow Unit), FilterRow.Fits (S := Unit) row c →
    selected (probe env strict lenient) env c.pgType row list =
      clause.bind (selected (probe env strict lenient) env c.pgType row)

theorem fits_null {owned : Truth} {bidx : Option String} : FilterRow.Fits (S := Unit) ⟨none, bidx, owned⟩ c :=
  fun _ h => nomatch h

theorem fits_scalar (hc : c.optionList = false) (ht : c.pgType ≠ .jsonb) :
    FilterRow.Fits (S := Unit) ⟨some (.scalar ()), none, none⟩ c := by
  intro cell h
  rw [if_neg (by simp [hc]), if_neg ht]
  exact ⟨(), (Option.some.inj h).symm⟩

theorem fits_json (hc : c.optionList = false) (ht : c.pgType = .jsonb) (v : FilterValue) :
    FilterRow.Fits (S := Unit) ⟨some (.json v), none, none⟩ c := by
  intro cell h
  rw [if_neg (by simp [hc]), if_pos ht]
  exact ⟨v, (Option.some.inj h).symm⟩

theorem fits_options (hc : c.optionList = true) (options : List String) :
    FilterRow.Fits (S := Unit) ⟨some (.json (optionsValue options)), none, none⟩ c := by
  intro cell h
  rw [if_pos hc]
  exact ⟨options, (Option.some.inj h).symm⟩

/-- Only `NULL` passes the strict probe. -/
theorem isNull_of_strict (ht : t ≠ .jsonb) {op : SqlOp} (hop : op = .eq ∨ op = .like)
    (h : probeAccepts env true lenient t op (prepareValue env t v) = true) : v.isNull = true := by
  have hstrict : (op == .eq || op == .like) = true := by rcases hop with rfl | rfl <;> rfl
  cases v with
  | null => rfl
  | bool | arr | obj => simp [prepareValue, ht, probeAccepts, hstrict] at h
  | number n =>
    rw [prepareValue, if_neg ht] at h
    split at h <;> simp [probeAccepts, hstrict] at h
  | str s =>
    rw [prepareValue] at h
    split at h
    · split at h <;> simp [probeAccepts, hstrict] at h
    · simp [probeAccepts, hstrict] at h

/-- Other than a number of the type, what `prepareValue` makes is accepted. -/
theorem probeAccepts_prepared (ht : t ≠ .jsonb) (op : SqlOp)
    (hv : ∀ n, v = .number n → sentAlike env t v = true) :
    probeAccepts env false lenient t op (prepareValue env t v) = true := by
  cases v with
  | null => rfl
  | bool | arr | obj => simp [prepareValue, ht, probeAccepts]
  | number n =>
    have halike := hv n rfl
    rw [prepareValue, if_neg ht]
    split
    · next hi => simpa [sentAlike, hi, probeAccepts] using halike
    · simp [probeAccepts, ht]
  | str s =>
    rw [prepareValue]
    split
    · next hts =>
      split
      · rfl
      · next hnone => simp [probeAccepts, sentAlike, hnone, ht]
    · next hts => simp [probeAccepts, sentAlike, hts, ht]

/-- The probe tells a value that Postgres does not take alike: it refuses the one or the other. -/
theorem probe_differs (ht : t ≠ .jsonb) (op : SqlOp) (hv : sentAlike env t v = false) :
    probeAccepts env false false t op (.raw v) ≠ probeAccepts env false false t op (prepareValue env t v) := by
  cases v with
  | null | bool | arr | obj => cases hv
  | number n =>
    rw [prepareValue, if_neg ht]
    simp only [sentAlike, Bool.or_eq_false_iff, Bool.not_eq_false'] at hv
    rw [if_pos hv.1]
    simp [probeAccepts, ht, hv.2]
  | str s =>
    have hall := hv
    simp only [sentAlike, Bool.or_eq_false_iff, Bool.not_eq_false'] at hv
    rw [prepareValue, if_pos hv.1]
    cases hns : env.instantOf s with
    | none => simp [hns] at hv
    | some ns => simp [probeAccepts, hall]

theorem selected_isSome {pg : Postgres} {row : FilterRow pg.Scalar} {l : List SqlCondition} :
    (selected pg env t row l).isSome = l.all (accepted pg t) := by
  unfold selected
  split
  · next h => rw [h]; rfl
  · next h => rw [Bool.eq_false_iff.2 h]; rfl

/-- A list of values on a column that is not jsonb. -/
theorem scalarListAgrees_of_probes (hc : c.optionList = false) (ht : c.pgType ≠ .jsonb)
    (h : ProbesAgree env c [inListSql c.pgType vs] (some [arrayCondition env c.pgType vs])) :
    ScalarListAgrees env c.pgType vs := by
  have hsome := congrArg Option.isSome (h false false _ (fits_scalar hc ht))
  rw [Option.bind_some, selected_isSome, selected_isSome] at hsome
  simp only [List.all_cons, List.all_nil, Bool.and_true] at hsome
  unfold ScalarListAgrees
  unfold inListSql arrayCondition at hsome
  rw [if_neg ht] at hsome
  have hprepared : vs ≠ [] → accepted (probe env false false) c.pgType (.oneOf (vs.map (prepareValue env c.pgType))) =
      vs.all fun v => probeAccepts env false false c.pgType .eq (prepareValue env c.pgType v) := by
    intro hne
    simp only [accepted, List.all_map, List.isEmpty_map, List.isEmpty_eq_false_iff.2 hne]
    rfl
  by_cases harr : c.pgType.arrayable = true
  · rw [if_pos harr] at hsome ⊢
    refine List.all_eq_true.1 ?_
    by_contra hall
    have hnil : vs ≠ [] := fun he => hall (by rw [he]; rfl)
    have hnot : accepted (probe env false false) c.pgType (.equalsAny vs) =
        !vs.all fun v => probeAccepts env false false c.pgType .eq (prepareValue env c.pgType v) :=
      if_neg hall
    rw [hnot, if_neg (by simpa using hnil), hprepared hnil] at hsome
    exact absurd hsome (by simp)
  · rw [if_neg harr] at hsome ⊢
    by_cases hnil : vs = []
    · subst hnil
      cases hsome
    · rw [if_neg (by simpa using hnil), hprepared hnil] at hsome
      refine ⟨hnil, fun v hv => ?_⟩
      by_contra hnot
      have hnot : sentAlike env c.pgType v = false := by simpa using hnot
      have hts : c.pgType.isTimestamptz = false := by
        cases hp : c.pgType <;> simp [hp, PgType.arrayable, PgType.isTimestamptz] at harr ⊢
      have hraw : ∀ v, probeAccepts env false false c.pgType .eq (.raw v) = true := fun v => by
        cases v <;> simp [probeAccepts, ht, sentAlike, hts]
      have hlist : accepted (probe env false false) c.pgType (.oneOf (vs.map .raw)) = true := by
        simp only [accepted, List.all_map, List.isEmpty_map, List.isEmpty_eq_false_iff.2 hnil, Bool.not_false,
          Bool.true_and]
        exact List.all_eq_true.2 fun v _ => hraw v
      rw [hlist] at hsome
      have hclause := List.all_eq_true.1 hsome.symm v hv
      exact probe_differs ht .eq hnot ((hraw v).trans hclause.symm)

theorem isWhereOperator_of_onlyNeNull (h : onlyNeNull fields = true) : isWhereOperator fields = true := by
  rw [onlyNeNull, Bool.and_eq_true, beq_iff_eq, List.length_eq_one_iff] at h
  obtain ⟨hne, ⟨key, v⟩, rfl⟩ := h
  by_cases hk : "ne" = key
  · subst hk
    rfl
  · simp [List.lookup_cons, show ("ne" == key) = false by simpa using hk] at hne

/-- A lenient probe accepts the comparisons of the list. -/
theorem accepted_rawComparisons : (rawComparisons fields).all (accepted (probe env strict true) t) = true := by
  rw [rawComparisons, List.all_map, List.all_eq_true]
  intro p hp
  obtain ⟨heq, hlike⟩ := mem_operands_op hp
  have hop : (p.1 == .eq || p.1 == .like) = false := by simp [heq, hlike]
  show probeAccepts env strict true t p.1 (.raw p.2) = true
  cases p.2 <;> simp [probeAccepts, hop, hlike]

/-- They are true of a scalar, where none is with `NULL`. -/
theorem holds_rawComparisons (hn : ∀ p ∈ operands fields, p.2.isNull = false) {row : FilterRow Unit}
    (hrow : row.cell = some (.scalar ())) :
    ((rawComparisons fields).all fun a => (truth (probe env strict lenient) env t row a).holds) = true := by
  rw [rawComparisons, List.all_map, List.all_eq_true]
  intro p hp
  have hnull := hn p hp
  show Truth.holds (row.cell.bind fun cell => probeCompare p.1 cell (.raw p.2)) = true
  rw [hrow]
  cases hv : p.2 with
  | null => simp [hv, FilterValue.isNull] at hnull
  | bool | number | str | arr | obj => rfl

theorem selected_accepted {pg : Postgres} {row : FilterRow pg.Scalar} {l : List SqlCondition}
    (h : l.all (accepted pg t) = true) :
    selected pg env t row l = some (l.all fun a => (truth pg env t row a).holds) := if_pos h

/-- What does not throw. -/
theorem operatorConditions_scalar_some {conditions : List SqlCondition} (ht : t ≠ .jsonb)
    (hc : operatorConditions env t fields = some conditions) : fields.lookup "jsonText" = none ∧
      (∀ v, fields.lookup "in" = some v → v.isArray = true) ∧
      ∀ v, fields.lookup "notIn" = some v → v.isArray = true := by
  unfold operatorConditions at hc
  simp only [Option.bind_eq_bind, Option.bind_eq_some_iff, Option.some.injEq] at hc
  obtain ⟨texts, htexts, isIn, hin, notIn, hnot, -⟩ := hc
  refine ⟨?_, fun v hv => ?_, fun v hv => ?_⟩
  · by_contra hne
    obtain ⟨m, hm⟩ := Option.ne_none_iff_exists'.1 hne
    rw [emitJsonText, hm] at htexts
    dsimp only at htexts
    split_ifs at htexts
  · rw [emitIn, hv] at hin
    cases v with
    | arr => rfl
    | null | bool | number | str | obj => cases hin
  · rw [emitNotIn, hv] at hnot
    cases v with
    | arr => rfl
    | null | bool | number | str | obj => cases hnot

/-- What the strict probe accepts beyond the comparisons binds nothing but `NULL`. -/
theorem addsNulls_of_accepted (ht : t ≠ .jsonb)
    (hin : ∀ v, fields.lookup "in" = some v → v.isArray = true)
    (hnot : ∀ v, fields.lookup "notIn" = some v → v.isArray = true)
    (h : (addedConditions env t fields).all (accepted (probe env true true) t) = true) : AddsNulls t fields := by
  have hnulls : ∀ vs : List FilterValue, (vs.map (prepareValue env t)).all (probeAccepts env true true t .eq) = true →
      (FilterValue.arr vs).isNulls = true := by
    intro vs hvs
    rw [List.all_map, List.all_eq_true] at hvs
    exact List.all_eq_true.2 fun v hv => isNull_of_strict ht (.inl rfl) (hvs v hv)
  rw [addedConditions, List.all_append, List.all_append, Bool.and_eq_true, Bool.and_eq_true] at h
  obtain ⟨⟨hlike, hisIn⟩, hnotIn⟩ := h
  refine ⟨fun v hv => ?_, fun v hv => ?_, fun v hv => ?_⟩
  · rw [comparisonEmitter, hv] at hlike
    simp only [ht, if_false, List.all_cons, List.all_nil, Bool.and_true] at hlike
    obtain rfl : v = .null := by
      have hnull := isNull_of_strict ht (.inr rfl) hlike
      cases v with
      | null => rfl
      | bool | number | str | arr | obj => cases hnull
    exact ⟨rfl, by simpa [accepted, prepareValue, probeAccepts] using hlike⟩
  · have harr := hin v hv
    cases v with
    | arr vs =>
      cases vs with
      | nil => rfl
      | cons v vs =>
        rw [emitIn, hv] at hisIn
        simp only [ht, if_false, List.isEmpty_cons, Bool.false_eq_true, Option.getD_some, List.all_cons, List.all_nil,
          Bool.and_true] at hisIn
        exact hnulls (v :: vs) (by simpa [accepted] using hisIn)
    | null | bool | number | str | obj => cases harr
  · have harr := hnot v hv
    cases v with
    | arr vs =>
      cases vs with
      | nil => rfl
      | cons v vs =>
        rw [emitNotIn, hv] at hnotIn
        simp only [ht, if_false, List.isEmpty_cons, Bool.false_eq_true, Option.getD_some, List.all_cons, List.all_nil,
          Bool.and_true] at hnotIn
        exact hnulls (v :: vs) (by simpa [accepted] using hnotIn)
    | null | bool | number | str | obj => cases harr

/-- Where only `NULL`s are bound and all is true, nothing is asked. -/
theorem addsNothing_of_holds (ht : t ≠ .jsonb) (hn : AddsNulls t fields) {row : FilterRow Unit}
    (h : ((addedConditions env t fields).all fun a => (truth (probe env strict lenient) env t row a).holds) = true) :
    AddsNothing fields := by
  have hone : ∀ (cell : CellValue Unit) (vs : List FilterValue), vs ≠ [] → (FilterValue.arr vs).isNulls = true →
      truthOneOf (probe env strict lenient) t cell (vs.map (prepareValue env t)) = none := by
    intro cell vs hne hvs
    have hnone : ∀ vs : List FilterValue, (FilterValue.arr vs).isNulls = true → vs ≠ [] →
        Truth.any ((vs.map (prepareValue env t)).map (probeCompare .eq cell)) = none := by
      intro vs
      induction vs with
      | nil => exact fun _ hne => absurd rfl hne
      | cons v vs ih =>
        intro hvs _
        rw [FilterValue.isNulls, List.all_cons, Bool.and_eq_true] at hvs
        cases v with
        | null =>
          cases vs with
          | nil => cases cell <;> rfl
          | cons v vs =>
            have hrest := ih hvs.2 (by simp)
            simp only [List.map_cons, Truth.any, List.foldr_cons] at hrest ⊢
            rw [hrest]
            cases cell <;> rfl
        | bool | number | str | arr | obj => cases hvs.1
    exact hnone vs hvs hne
  obtain ⟨hlike, hin, hnot⟩ := hn
  rw [addedConditions, List.all_append, List.all_append, Bool.and_eq_true, Bool.and_eq_true] at h
  obtain ⟨⟨hl, hi⟩, hno⟩ := h
  refine ⟨?_, ?_, fun v hv => ?_⟩
  · by_contra hne
    obtain ⟨v, hv⟩ := Option.ne_none_iff_exists'.1 hne
    obtain ⟨hnull, -⟩ := hlike v hv
    rw [comparisonEmitter, hv] at hl
    cases v with
    | null =>
      simp only [ht, if_false, List.all_cons, List.all_nil, Bool.and_true, truth] at hl
      cases hcell : row.cell with
      | none => simp [hcell] at hl
      | some cell =>
        rw [hcell] at hl
        cases cell <;> cases hl
    | bool | number | str | arr | obj => cases hnull
  · by_contra hne
    obtain ⟨v, hv⟩ := Option.ne_none_iff_exists'.1 hne
    have hnulls := hin v hv
    rw [emitIn, hv] at hi
    cases v with
    | arr vs =>
      cases vs with
      | nil => simp [ht, truth] at hi
      | cons v vs =>
        simp only [ht, if_false, List.isEmpty_cons, Bool.false_eq_true, Option.getD_some, List.all_cons, List.all_nil,
          Bool.and_true, truth] at hi
        cases hcell : row.cell with
        | none => simp [hcell] at hi
        | some cell =>
          rw [hcell, Option.bind_some, hone cell (v :: vs) (by simp) hnulls] at hi
          cases hi
    | null | bool | number | str | obj => cases hnulls
  · have hnulls := hnot v hv
    cases v with
    | arr vs =>
      cases vs with
      | nil => rfl
      | cons v vs =>
        rw [emitNotIn, hv] at hno
        simp only [ht, if_false, List.isEmpty_cons, Bool.false_eq_true, Option.getD_some, List.all_cons, List.all_nil,
          Bool.and_true, truth] at hno
        cases hcell : row.cell with
        | none => simp [hcell] at hno
        | some cell =>
          rw [hcell, Option.bind_some, hone cell (v :: vs) (by simp) hnulls] at hno
          cases hno
    | null | bool | number | str | obj => cases hnulls

/-- A probe that takes every prepared value takes what the where clause adds to the comparisons. -/
theorem accepted_addedConditions {strict lenient : Bool} (ht : t ≠ .jsonb)
    (hprepared : ∀ op v, probeAccepts env strict lenient t op (prepareValue env t v) = true) :
    (addedConditions env t fields).all (accepted (probe env strict lenient) t) = true := by
  have hvalues : ∀ vs : List FilterValue,
      (vs.map (prepareValue env t)).all (probeAccepts env strict lenient t .eq) = true := fun vs => by
    rw [List.all_map, List.all_eq_true]
    exact fun v _ => hprepared .eq v
  rw [addedConditions, List.all_append, List.all_append, Bool.and_eq_true, Bool.and_eq_true]
  refine ⟨⟨?_, ?_⟩, ?_⟩
  · unfold comparisonEmitter
    split
    · rfl
    · next v _ =>
      rw [if_neg ht]
      exact (Bool.and_true _).trans (hprepared .like v)
  · unfold emitIn
    split
    · rfl
    · next vs _ =>
      rw [if_neg ht]
      split
      · rfl
      · next hnil => simpa [accepted, hnil] using hvalues vs
    · rfl
  · unfold emitNotIn
    split
    · rfl
    · next vs _ =>
      rw [if_neg ht]
      split
      · rfl
      · next hnil => simpa [accepted, hnil] using hvalues vs
    · rfl

/-- Where no value is refused on one side only, both sides send every operand alike. -/
theorem sentAlike_of_probes (hc : c.optionList = false) (ht : c.pgType ≠ .jsonb)
    (h : ProbesAgree env c (rawComparisons fields)
      (some (preparedComparisons env c.pgType fields ++ addedConditions env c.pgType fields))) :
    ∀ p ∈ operands fields, sentAlike env c.pgType p.2 = true := by
  intro p hp
  by_contra hp'
  have hp' : sentAlike env c.pgType p.2 = false := by simpa using hp'
  have hsome := congrArg Option.isSome (h false false _ (fits_scalar hc ht))
  rw [Option.bind_some, selected_isSome, selected_isSome, List.all_append] at hsome
  have hdiffers := probe_differs ht p.1 hp'
  by_cases hi : c.pgType.isInteger = true
  · -- the list's numbers are accepted, and one of the texts is not
    have hts : c.pgType.isTimestamptz = false := by
      cases hpg : c.pgType <;> simp [hpg, PgType.isInteger, PgType.isTimestamptz] at hi ⊢
    have hraw : ∀ op v, probeAccepts env false false c.pgType op (.raw v) = true := fun op v => by
      cases v <;> simp [probeAccepts, ht, sentAlike, hts]
    have hall : (rawComparisons fields).all (accepted (probe env false false) c.pgType) = true := by
      rw [rawComparisons, List.all_map, List.all_eq_true]
      exact fun q _ => hraw q.1 q.2
    rw [hall, eq_comm, Bool.and_eq_true, preparedComparisons, List.all_map, List.all_eq_true] at hsome
    exact hdiffers ((hraw p.1 p.2).trans (hsome.1 p hp).symm)
  · -- the where clause's values are accepted, and one of the list's is not
    have hi : c.pgType.isInteger = false := by simpa using hi
    have hprepared : ∀ op v, probeAccepts env false false c.pgType op (prepareValue env c.pgType v) = true :=
      fun op v => probeAccepts_prepared ht op fun n hn => by rw [hn, sentAlike, hi]; rfl
    have hall : (preparedComparisons env c.pgType fields).all (accepted (probe env false false) c.pgType) = true := by
      rw [preparedComparisons, List.all_map, List.all_eq_true]
      exact fun q _ => hprepared q.1 q.2
    have hadded : (addedConditions env c.pgType fields).all (accepted (probe env false false) c.pgType) = true :=
      accepted_addedConditions ht hprepared
    rw [hall, hadded, Bool.and_self, rawComparisons, List.all_map, List.all_eq_true] at hsome
    exact hdiffers ((hsome p hp).trans (hprepared p.1 p.2).symm)

theorem scalarObjectAgrees_of_probes (hc : c.optionList = false) (ht : c.pgType ≠ .jsonb)
    (h : ProbesAgree env c (screenConditions env c (.obj fields)) (conditionsForValue env c (.obj fields))) :
    ScalarObjectAgrees env c.pgType fields := by
  have hfit := fits_scalar (c := c) hc ht
  unfold ScalarObjectAgrees
  by_cases hone : onlyNeNull fields = true
  · exact ⟨isWhereOperator_of_onlyNeNull hone, .inl hone⟩
  rw [screenConditions, if_neg hone] at h
  change ProbesAgree env c (rawComparisons fields) _ at h
  have hlist : ∀ strict, selected (probe env strict true) env c.pgType ⟨some (.scalar ()), none, none⟩
      (rawComparisons fields) = some _ := fun strict => selected_accepted accepted_rawComparisons
  -- the strict probe refuses the object as a value
  have hop : isWhereOperator fields = true := by
    by_contra hop
    have hstrict := h true true _ hfit
    rw [hlist, conditionsForValue, if_neg hop, Option.bind_some, equalityCondition_obj, prepareValue,
      if_neg ht] at hstrict
    cases hstrict
  rw [conditionsForValue, if_pos hop] at h
  refine ⟨hop, .inr ?_⟩
  have hconditions : ∃ conditions, operatorConditions env c.pgType fields = some conditions := by
    by_contra hnone
    have hlenient := h false true _ hfit
    rw [hlist, Option.eq_none_iff_forall_ne_some.2 fun l hl => hnone ⟨l, hl⟩] at hlenient
    cases hlenient
  obtain ⟨conditions, hconditions⟩ := hconditions
  obtain ⟨hjson, hin, hnot⟩ := operatorConditions_scalar_some ht hconditions
  have hone : onlyNeNull fields = false := by simpa using hone
  rw [operatorConditions_scalar ht hone hjson hin hnot] at h
  have halike := sentAlike_of_probes hc ht h
  have hstrict := h true true _ hfit
  have haccepted := congrArg Option.isSome hstrict
  rw [Option.bind_some, selected_isSome, selected_isSome, accepted_rawComparisons, eq_comm] at haccepted
  have hadded := haccepted
  rw [List.all_append, Bool.and_eq_true] at hadded
  have hnulls := addsNulls_of_accepted ht hin hnot hadded.2
  refine ⟨hjson, halike, ?_⟩
  by_cases hnull : ∃ p ∈ operands fields, p.2.isNull = true
  · exact .inr ⟨hnull, hnulls⟩
  · left
    have hn : ∀ p ∈ operands fields, p.2.isNull = false := fun p hp => by
      simpa using fun hp' => hnull ⟨p, hp, hp'⟩
    rw [hlist, holds_rawComparisons hn rfl, Option.bind_some, selected_accepted haccepted] at hstrict
    have hholds := (Option.some.inj hstrict).symm
    rw [List.all_append, Bool.and_eq_true] at hholds
    exact addsNothing_of_holds ht hnulls hholds.2

/-- A scalar column. -/
theorem scalarAgrees_of_probes (hc : c.optionList = false) (ht : c.pgType ≠ .jsonb)
    (h : ProbesAgree env c (screenConditions env c v) (conditionsForValue env c v)) : ScalarAgrees env c v := by
  have hequal : ∀ v, ProbesAgree env c [.compare .eq (.raw v)] (some [.compare .eq (prepareValue env c.pgType v)]) →
      sentAlike env c.pgType v = true := by
    intro v h
    by_contra hv
    have hsome := congrArg Option.isSome (h false false _ (fits_scalar hc ht))
    rw [Option.bind_some, selected_isSome, selected_isSome] at hsome
    simp only [List.all_cons, List.all_nil, Bool.and_true] at hsome
    exact probe_differs ht .eq (by simpa using hv) hsome
  cases v with
  | null => trivial
  | arr vs => exact scalarListAgrees_of_probes hc ht h
  | obj fields => exact scalarObjectAgrees_of_probes hc ht h
  | bool | number =>
    rw [conditionsForValue_scalar rfl, if_neg ht] at h
    exact hequal _ h
  | str s =>
    rw [conditionsForValue_scalar rfl, if_neg ht] at h
    unfold equalityCondition screenConditions at h
    dsimp only at h
    by_cases hkey : env.computeBlindIndex.isSome = true ∧ c.hasBidx = true
    · have htext := c.hasBidx_text hkey.2
      refine ⟨by rw [htext]; rfl, fun ⟨_, _, hnamed⟩ => ?_⟩
      -- the row that has only the blind index
      obtain ⟨index, hindex⟩ := Option.isSome_iff_exists.1 hkey.1
      have hrow := h false false ⟨none, some (index s), none⟩ fits_null
      simp [hkey.2, hnamed, htext, hindex, selected, accepted, truth, prepareValue, probeAccepts, sentAlike,
        PgType.isTimestamptz, Truth.compare] at hrow
    · have hlist : (env.computeBlindIndex.isSome && c.hasBidx) = false := by simpa using hkey
      have hwhere : (env.computeBlindIndex.isSome && !c.namedBidx && c.hasBidx) = false := by
        rw [Bool.and_right_comm, hlist, Bool.false_and]
      rw [hlist, hwhere] at h
      exact ⟨hequal _ h, fun hn => hkey ⟨hn.1, hn.2.1⟩⟩

/-- Keys of an object that has one. -/
theorem key_unique {key key' : String} (hlen : fields.length ≤ 1) (h : (fields.lookup key).isSome = true)
    (h' : (fields.lookup key').isSome = true) : key = key' := by
  have hkey : ∀ k v key, ([(k, v)] : List (String × FilterValue)).lookup key = none ∨ key = k := fun k v key => by
    by_cases hk : key = k
    · exact .inr hk
    · exact .inl (by simp [List.lookup_cons, show (key == k) = false by simpa using hk])
  rcases fields with _ | ⟨⟨k, v⟩, _ | ⟨_, _⟩⟩
  · cases h
  · rw [((hkey k v key).resolve_left fun hn => by simp [hn] at h),
      ((hkey k v key').resolve_left fun hn => by simp [hn] at h')]
  · simp at hlen

/-- An operator object has an operand. -/
theorem exists_operand (hop : isWhereOperator fields = true) :
    ∃ key ∈ operatorKeys, (fields.lookup key).isSome = true := by
  rw [isWhereOperator, Bool.and_eq_true] at hop
  rcases fields with _ | ⟨⟨key, v⟩, rest⟩
  · exact absurd hop.1 (by simp)
  · have hkey := List.all_eq_true.1 hop.2 _ (.head _)
    exact ⟨key, by simpa using hkey, by simp⟩

theorem isSome_of_operands {p : SqlOp × FilterValue} (hp : p ∈ operands fields) :
    ∃ key ∈ ["gt", "gte", "lt", "lte", "ne"], fields.lookup key = some p.2 := by
  obtain ⟨key, hkey, hl⟩ := mem_operands.1 hp
  exact ⟨key, List.mem_map_of_mem (f := Prod.fst) hkey, hl⟩

theorem operands_of_isSome {key : String} (hkey : key ∈ ["gt", "gte", "lt", "lte", "ne"])
    (h : (fields.lookup key).isSome = true) : operands fields ≠ [] := by
  obtain ⟨v, hv⟩ := Option.isSome_iff_exists.1 h
  obtain ⟨⟨_, op⟩, hmem, rfl⟩ := List.mem_map.1 (show key ∈ comparisonKeys.map Prod.fst from hkey)
  exact List.ne_nil_of_mem (mem_operands.2 ⟨_, hmem, hv⟩ : (op, v) ∈ operands fields)

/-- The probe that refuses values on a JSON column. -/
theorem operands_isNull (hall : (rawComparisons fields).all (accepted (probe env false false) .jsonb) = true) :
    ∀ p ∈ operands fields, p.2.isNull = true := by
  intro p hp
  rw [rawComparisons, List.all_map, List.all_eq_true] at hall
  have hraw : probeAccepts env false false .jsonb p.1 (.raw p.2) = true := hall p hp
  cases hv : p.2 with
  | null => rfl
  | bool | number | str | arr | obj => simp [hv, probeAccepts] at hraw

theorem jsonbObjectAgrees_of_probes (hc : c.optionList = false) (ht : c.pgType = .jsonb)
    (h : ProbesAgree env c (screenConditions env c (.obj fields)) (conditionsForValue env c (.obj fields))) :
    JsonbObjectAgrees fields := by
  unfold JsonbObjectAgrees
  by_cases hone : onlyNeNull fields = true
  · exact ⟨isWhereOperator_of_onlyNeNull hone, .inl hone⟩
  rw [screenConditions, if_neg hone] at h
  change ProbesAgree env c (rawComparisons fields) _ at h
  have hlist : ∀ strict row, selected (probe env strict true) env c.pgType row (rawComparisons fields) = some _ :=
    fun strict row => selected_accepted accepted_rawComparisons
  have hnull := h false true ⟨none, none, none⟩ fits_null
  have hstrict := h false false ⟨none, none, none⟩ fits_null
  rw [hlist] at hnull
  -- without an operand the list selects `NULL`, and the where clause never does
  have hnone : operands fields = [] →
      ((rawComparisons fields).all fun a => (truth (probe env false true) env c.pgType ⟨none, none, none⟩ a).holds) =
        true := fun he => by
    rw [rawComparisons, he]
    rfl
  have hop : isWhereOperator fields = true := by
    by_contra hop
    have hclause : conditionsForValue env c (.obj fields) = some [.compare .eq (.json (.obj fields))] := by
      rw [conditionsForValue, if_neg hop, equalityCondition_obj, ht]
      rfl
    rw [hclause] at hnull hstrict h
    have hnulls : ∀ p ∈ operands fields, p.2.isNull = true := by
      have hsome := congrArg Option.isSome hstrict
      rw [Option.bind_some, selected_isSome, selected_isSome, ht] at hsome
      exact operands_isNull hsome
    by_cases hoperands : operands fields = []
    · rw [hnone hoperands] at hnull
      cases hnull
    · obtain ⟨p, hp⟩ := List.exists_mem_of_ne_nil _ hoperands
      have hjson := h false true ⟨some (.json .null), none, none⟩ (fits_json hc ht .null)
      rw [hlist, never_of_null (probe_lawful env false true) ⟨p, hp, hnulls p hp⟩] at hjson
      cases hjson
  rw [conditionsForValue, if_pos hop, ht] at h hnull hstrict
  refine ⟨hop, .inr ?_⟩
  cases hconditions : operatorConditions env .jsonb fields with
  | none =>
    rw [hconditions] at hnull
    cases hnull
  | some conditions =>
    have hall := operatorConditions_jsonb hconditions
    have haccepted : ∀ strict lenient,
        conditions.all (accepted (probe env strict lenient) .jsonb) = true := fun strict lenient =>
      List.all_eq_true.2 (accepted_operatorConditions (probe_lawful env strict lenient) hconditions)
    rw [hconditions, Option.bind_some] at hnull hstrict
    have hnulls : ∀ p ∈ operands fields, p.2.isNull = true := by
      have hsome := congrArg Option.isSome hstrict
      rw [selected_isSome, selected_isSome, haccepted] at hsome
      exact operands_isNull hsome
    have hne : operands fields ≠ [] := by
      intro hoperands
      have habsent : ∀ key ∈ ["gt", "gte", "lt", "lte", "ne"], fields.lookup key = none := fun key hkey => by
        by_contra hsome
        exact operands_of_isSome hkey (Option.isSome_iff_ne_none.2 hsome) hoperands
      rw [ht] at hnone
      rw [hnone hoperands, selected_accepted (haccepted false true)] at hnull
      have hholds := List.all_eq_true.1 (Option.some.inj hnull).symm
      -- each of its conditions is unknown of `NULL`
      have hfalse : ∀ a ∈ conditions,
          (truth (probe env false true) env .jsonb ⟨none, none, none⟩ a).holds = false := by
        intro a ha
        rcases hall.mem a ha with ⟨rfl | ⟨keys, text, rfl⟩, -⟩ | hmem | ⟨vs, -, rfl⟩
        · rfl
        · rfl
        · rw [emitNotEqual, habsent "ne" (by simp)] at hmem
          cases hmem
        · exact holds_containsAny_null rfl
      have hexists : ∃ a, a ∈ conditions := by
        obtain ⟨key, hkey, hsome⟩ := exists_operand hop
        have hcases : key = "jsonText" ∨ key = "like" ∨ key = "in" ∨ key = "notIn" := by
          by_contra hkeys
          have hcompare : key ∈ ["gt", "gte", "lt", "lte", "ne"] := by
            simp only [operatorKeys, List.mem_cons, List.not_mem_nil, or_false] at hkey ⊢
            tauto
          rw [habsent key hcompare] at hsome
          cases hsome
        rcases hcases with rfl | rfl | rfl | rfl
        · obtain ⟨texts, htexts, hmem⟩ := hall.jsonText
          obtain ⟨a, ha⟩ := List.exists_mem_of_ne_nil _ ((emitJsonText_jsonb htexts).2 hsome).2
          exact ⟨a, hmem a ha⟩
        · exact ⟨_, (hall.comparison "like" .like (by simp) hsome).2⟩
        · obtain ⟨v, hv⟩ := Option.isSome_iff_exists.1 hsome
          obtain ⟨vs, -, hmem⟩ := hall.isIn v hv
          exact ⟨_, hmem⟩
        · rw [hall.notIn] at hsome
          cases hsome
      obtain ⟨a, ha⟩ := hexists
      exact absurd (hholds a ha) (by rw [hfalse a ha]; simp)
    obtain ⟨p, hp⟩ := List.exists_mem_of_ne_nil _ hne
    obtain ⟨key, hkey, hl⟩ := isSome_of_operands hp
    refine ⟨hne, hnulls, ?_, hall.notIn, fun v hv => ?_⟩
    · by_contra hjson
      obtain ⟨texts, htexts, -⟩ := hall.jsonText
      have hsome := Option.isSome_iff_ne_none.2 hjson
      have hsame := key_unique ((emitJsonText_jsonb htexts).2 hsome).1 hsome (by rw [hl]; rfl)
      rw [← hsame] at hkey
      exact absurd hkey (by decide)
    · obtain ⟨vs, rfl, -⟩ := hall.isIn v hv
      rfl

/-- A JSON column that is no list of options. -/
theorem jsonbAgrees_of_probes (hc : c.optionList = false) (ht : c.pgType = .jsonb)
    (h : ProbesAgree env c (screenConditions env c v) (conditionsForValue env c v)) : JsonbAgrees v := by
  have hstrict := h false false ⟨none, none, none⟩ fits_null
  have hbidx : c.hasBidx = false := by
    by_contra hb
    have htext := c.hasBidx_text (by simpa using hb)
    rw [ht] at htext
    cases htext
  have hscalar : ∀ v : FilterValue, v.isJsonbScalar = true → screenConditions env c v = [.compare .eq (.raw v)] := by
    intro v hv
    cases v with
    | bool | number => rfl
    | str s => simp [screenConditions, hbidx]
    | null | arr | obj => cases hv
  cases v with
  | null => trivial
  | obj fields => exact jsonbObjectAgrees_of_probes hc ht h
  | bool | number | str =>
    rw [conditionsForValue_scalar rfl, if_pos ht, hscalar _ rfl, ht] at hstrict
    have hsome := congrArg Option.isSome hstrict
    rw [Option.bind_some, selected_isSome, selected_isSome] at hsome
    simp [accepted, accepted_containsAny, probeAccepts] at hsome
  | arr vs =>
    exfalso
    have hlist : screenConditions env c (.arr vs) = [.oneOf (vs.map .raw)] := by
      rw [screenConditions, inListSql, ht]
      rfl
    cases vs with
    | nil =>
      rw [hlist, ht] at hstrict
      cases hstrict
    | cons v vs =>
      have hclause : conditionsForValue env c (.arr (v :: vs)) = some [jsonbContainsAny (v :: vs)] :=
        congrArg (fun a => some [a]) (arrayCondition_jsonb ht)
      rw [hlist, hclause] at h
      have hsome := congrArg Option.isSome (h false false ⟨none, none, none⟩ fits_null)
      rw [Option.bind_some, selected_isSome, selected_isSome, ht] at hsome
      simp only [List.all_cons, List.all_nil, Bool.and_true, accepted_containsAny] at hsome
      have hnulls : ∀ w ∈ v :: vs, w = .null := by
        intro w hw
        have hall : ((v :: vs).map Sent.raw).all (probeAccepts env false false .jsonb .eq) = true :=
          (Bool.and_eq_true _ _ ▸ hsome : _ ∧ _).2
        rw [List.all_map, List.all_eq_true] at hall
        have hraw := hall w hw
        cases w with
        | null => rfl
        | bool | number | str | arr | obj => simp [probeAccepts] at hraw
      -- an array with `NULL` in it
      have hrow := h false false ⟨some (.json (.arr [.null])), none, none⟩ (fits_json hc ht _)
      have hlistFalse : (truth (probe env false false) env c.pgType ⟨some (.json (.arr [.null])), none, none⟩
          (.oneOf ((v :: vs).map .raw))).holds = false := by
        rw [truth, Option.bind_some, truthOneOf, Truth.holds_any, List.map_map, List.any_map, List.any_eq_false]
        intro w hw
        rw [hnulls w hw]
        simp [probeCompare]
      have hwhere : (truth (probe env false false) env c.pgType ⟨some (.json (.arr [.null])), none, none⟩
          (jsonbContainsAny (v :: vs))).holds = true := by
        rw [jsonbContainsAny, holds_disjoin, List.any_eq_true, hnulls v (.head _)]
        exact ⟨.contains (.arr [.null]), by simp, rfl⟩
      rw [Option.bind_some, selected_accepted (l := [jsonbContainsAny (v :: vs)]) (by simp [accepted_containsAny]),
        selected_accepted (l := [.oneOf ((v :: vs).map .raw)]) (by rw [ht]; simpa using hsome)] at hrow
      simp only [List.all_cons, List.all_nil, Bool.and_true, hwhere, hlistFalse] at hrow
      cases hrow

/-- The row with the one option. -/
theorem holds_single (env : FilterEnv) (strict lenient : Bool) (t : PgType) (vs : List FilterValue) (s : String)
    {row : FilterRow Unit} (hcell : row.cell = some (.json (optionsValue [s]))) :
    (truth (probe env strict lenient) env t row (jsonbContainsAny vs)).holds = vs.any (·.isStr s) ∧
      (truth (probe env strict lenient) env t row (.contains (.arr vs))).holds = vs.all (·.isStr s) := by
  have h := probe_lawful env strict lenient
  refine ⟨(holds_containsAny h hcell).trans ?_, (holds_contains h hcell).trans ?_⟩ <;> simp

/-- `ne` is not true of the one option only where it excludes the option. -/
theorem excludes_of_notEqual (s : String) {row : FilterRow Unit}
    (hcell : row.cell = some (.json (optionsValue [s]))) {a : SqlCondition} (ha : a ∈ emitNotEqual env .jsonb fields)
    (hfalse : (truth (probe env strict lenient) env .jsonb row a).holds = false) : neExcludes fields s = true := by
  unfold neExcludes
  have hcontains : ∀ vs : List FilterValue,
      (truth (probe env strict lenient) env .jsonb row (.or .isNull (.not (.contains (.arr vs))))).holds = false →
        vs.all (·.isStr s) = true := by
    intro vs hvs
    have hall := (holds_single env strict lenient .jsonb vs s hcell).2
    simp only [truth, hcell, Option.bind_some, Truth.holds_or, Truth.holds_not_some, Truth.holds_some] at hvs hall
    rw [← hall]
    simpa [Truth.isNull] using hvs
  have hscalar : ∀ v : FilterValue, v.isJsonbScalar = true → (truth (probe env strict lenient) env .jsonb row
      (.or .isNull (.not (.or (.contains (.arr [v])) (.equalsJson v))))).holds = false → v.isStr s = true := by
    intro v hv hvs
    have hsame : selected (probe env strict lenient) env .jsonb row _ =
        selected (probe env strict lenient) env .jsonb row _ :=
      selected_notEqual_scalar (probe_lawful env strict lenient) (.inr ⟨[s], hcell⟩) hv
    rw [selected_accepted rfl, selected_accepted rfl] at hsame
    simp only [List.all_cons, List.all_nil, Bool.and_true] at hsame
    rw [← Option.some.inj hsame] at hvs
    simpa using hcontains _ hvs
  cases hl : fields.lookup "ne" with
  | none => simp [emitNotEqual, hl] at ha
  | some v =>
    cases v with
    | null =>
      by_cases hone : onlyNeNull fields = true
      · rw [emitNotEqual, hl] at ha
        simp only [if_pos hone, List.mem_singleton] at ha
        subst ha
        simp [truth, hcell, Truth.isNotNull] at hfalse
      · simpa [onlyNeNull, hl, FilterValue.isNull] using hone
    | obj o =>
      cases (mem_emitNotEqual hl (onlyNeNull_of_lookup hl rfl)).1 ha
      simp [jsonbNotEqualCondition, truth, hcell, prepareValue, probeCompare] at hfalse
    | arr vs =>
      cases vs with
      | nil => rfl
      | cons v vs =>
        cases (mem_emitNotEqual hl (onlyNeNull_of_lookup hl rfl)).1 ha
        exact hcontains _ hfalse
    | bool | number | str =>
      cases (mem_emitNotEqual hl (onlyNeNull_of_lookup hl rfl)).1 ha
      exact hscalar _ rfl hfalse

/-- `ne` is not true of `NULL` and of no options only where it never is. -/
theorem never_of_notEqual (env : FilterEnv) (strict lenient : Bool)
    (h : ∀ row : FilterRow Unit, row.cell = none ∨ row.cell = some (.json (optionsValue [])) →
      ∃ a ∈ emitNotEqual env .jsonb fields, (truth (probe env strict lenient) env .jsonb row a).holds = false) :
    neNever fields = true := by
  obtain ⟨a, ha, hfalse⟩ := h ⟨none, none, none⟩ (.inl rfl)
  obtain ⟨b, hb, hfalse'⟩ := h ⟨some (.json (optionsValue [])), none, none⟩ (.inr rfl)
  unfold neNever
  cases hl : fields.lookup "ne" with
  | none => simp [emitNotEqual, hl] at ha
  | some v =>
    have hnull : ∀ x, a = .or .isNull x → False := fun x he => by
      subst he
      simp [truth, Truth.isNull] at hfalse
    cases v with
    | null =>
      by_cases hone : onlyNeNull fields = true
      · rw [emitNotEqual, hl] at hb
        simp only [if_pos hone, List.mem_singleton] at hb
        subst hb
        simp [truth, Truth.isNotNull] at hfalse'
      · simpa [onlyNeNull, hl, FilterValue.isNull] using hone
    | obj o =>
      cases (mem_emitNotEqual hl (onlyNeNull_of_lookup hl rfl)).1 hb
      simp [jsonbNotEqualCondition, truth, prepareValue, probeCompare] at hfalse'
    | arr vs =>
      cases vs with
      | nil => rfl
      | cons v vs => exact (hnull _ ((mem_emitNotEqual hl (onlyNeNull_of_lookup hl rfl)).1 ha)).elim
    | bool | number | str => exact (hnull _ ((mem_emitNotEqual hl (onlyNeNull_of_lookup hl rfl)).1 ha)).elim

theorem areTextMatches_of_emit {texts : List SqlCondition} {m : FilterValue} (hm : fields.lookup "jsonText" = some m)
    (h : emitJsonText .jsonb fields = some texts) : m.areTextMatches = true := by
  rw [emitJsonText, hm] at h
  dsimp only at h
  split_ifs at h with hlen
  cases m with
  | arr ms =>
    cases ms with
    | nil => rfl
    | cons m ms =>
      have hms : (m :: ms).mapM jsonTextMatchCondition = some texts := h
      exact (mapM_jsonTextMatch (m :: ms)).1.symm.trans (by rw [hms]; rfl)
  | null | bool | number | str => cases h
  | obj o =>
    obtain ⟨a, ha, -⟩ := Option.map_eq_some_iff.1 h
    simp [FilterValue.areTextMatches, ha]

/-- An object on a list of options. -/
theorem optionObjectAgrees_of_probes (hc : c.optionList = true)
    (h : ProbesAgree env c [.contains (.arr [.obj fields])] (conditionsForValue env c (.obj fields))) :
    OptionObjectAgrees fields := by
  have ht := c.optionList_jsonb hc
  by_cases hop : isWhereOperator fields = true
  · right
    have hfalse : ∀ row : FilterRow Unit, row.Options → FilterRow.Fits (S := Unit) row c →
        (operatorConditions env .jsonb fields).bind (selected (probe env false false) env .jsonb row) = some false := by
      intro row hr hf
      have hrow := h false false row hf
      rw [selected_list_object (probe_lawful env false false) hr (.obj fields) fun _ => rfl, conditionsForValue,
        if_pos hop, ht] at hrow
      exact hrow.symm
    cases hconditions : operatorConditions env .jsonb fields with
    | none =>
      have hrow := hfalse ⟨none, none, none⟩ (.inl rfl) fits_null
      rw [hconditions] at hrow
      cases hrow
    | some conditions =>
      have hall := operatorConditions_jsonb hconditions
      have haccepted : conditions.all (accepted (probe env false false) .jsonb) = true :=
        List.all_eq_true.2 (accepted_operatorConditions (probe_lawful env false false) hconditions)
      -- in each row one of the conditions is not true
      have hexists : ∀ row : FilterRow Unit, row.Options → FilterRow.Fits (S := Unit) row c →
          ∃ a ∈ conditions, (truth (probe env false false) env .jsonb row a).holds = false := by
        intro row hr hf
        have hrow := hfalse row hr hf
        rw [hconditions, Option.bind_some, selected_accepted haccepted] at hrow
        obtain ⟨a, ha, hnot⟩ := List.all_eq_false.1 (Option.some.inj hrow)
        exact ⟨a, ha, by simpa using hnot⟩
      cases hjson : fields.lookup "jsonText" with
      | some m =>
        obtain ⟨texts, htexts, -⟩ := hall.jsonText
        exact ⟨((emitJsonText_jsonb htexts).2 (by simp [hjson])).1, areTextMatches_of_emit hjson htexts⟩
      | none =>
        refine ⟨hall.notIn, fun v hv => ?_, ?_⟩
        · obtain ⟨vs, rfl, -⟩ := hall.isIn v hv
          rfl
        · by_cases hkeys : ∃ key ∈ ["gt", "gte", "lt", "lte", "like"], (fields.lookup key).isSome = true
          · exact .inl hkeys
          · right
            have hrest : ∀ a ∈ conditions, a ∈ emitNotEqual env .jsonb fields ∨
                ∃ vs, fields.lookup "in" = some (.arr vs) ∧ a = jsonbContainsAny vs := by
              intro a ha
              rcases hall.mem a ha with ⟨-, key, hkey, hsome⟩ | hmem | hmem
              · rcases List.mem_cons.1 hkey with rfl | hkey
                · simp [hjson] at hsome
                · exact absurd ⟨key, hkey, hsome⟩ hkeys
              · exact .inl hmem
              · exact .inr hmem
            cases hin : fields.lookup "in" with
            | none =>
              refine never_of_notEqual env false false fun row hrow => ?_
              obtain ⟨a, ha, hnot⟩ := hexists row (hrow.imp_right fun he => ⟨[], he⟩) (by
                intro cell hcell
                rcases hrow with he | he
                · rw [he] at hcell
                  cases hcell
                · rw [if_pos hc]
                  exact ⟨[], Option.some.inj (hcell.symm.trans he)⟩)
              rcases hrest a ha with hmem | ⟨vs, hvs, -⟩
              · exact ⟨a, hmem, hnot⟩
              · rw [hin] at hvs
                cases hvs
            | some v =>
              obtain ⟨vs, rfl, -⟩ := hall.isIn v hin
              intro s hs
              have hcell : (⟨some (.json (optionsValue [s])), none, none⟩ : FilterRow Unit).cell =
                some (.json (optionsValue [s])) := rfl
              obtain ⟨a, ha, hnot⟩ := hexists _ (.inr ⟨[s], hcell⟩) (fits_options hc [s])
              rcases hrest a ha with hmem | ⟨vs', hvs, rfl⟩
              · exact excludes_of_notEqual s hcell hmem hnot
              · rw [hin] at hvs
                cases hvs
                rw [(holds_single env false false .jsonb vs s hcell).1, List.any_eq_false] at hnot
                obtain ⟨v, hv, hvs⟩ := hs
                exact absurd hvs (hnot v hv)
  · exact .inl (by simpa using hop)

/-- A list of options. -/
theorem optionListAgrees_of_probes (hc : c.optionList = true) {op : FilterOp}
    (h : ProbesAgree env c (applyMultiSelectFilter op v) (buildWhereClause env c op v)) : OptionListAgrees op v := by
  have ht := c.optionList_jsonb hc
  have hnull := h false false ⟨none, none, none⟩ fits_null
  cases op with
  | lt | gt | lte | gte | «in» => trivial
  | ne =>
    cases v with
    | null => cases hnull
    | obj o =>
      exfalso
      have hclause : buildWhereClause env c .ne (.obj o) = some [.compare .ne (.json (.obj o))] := by
        simp [buildWhereClause, buildFilterWhere, conditionsForValue, isWhereOperator, operatorKeys,
          operatorConditions, emitJsonText, comparisonEmitter, emitNotEqual, emitIn, emitNotIn, onlyNeNull,
          FilterValue.isNull, jsonbNotEqualCondition, prepareValue, List.lookup_cons, ht]
      rw [hclause] at hnull
      cases hnull
    | bool | number | str | arr => trivial
  | eq =>
    cases v with
    | null => cases hnull
    | obj fields => exact optionObjectAgrees_of_probes hc h
    | bool | number | str => trivial
    | arr vs =>
      rintro s ⟨v₀, hv₀, hs⟩ v hv
      cases vs with
      | nil => cases hv
      | cons w ws =>
        have hrow := h false false _ (fits_options hc [s])
        have hclause : buildWhereClause env c .eq (.arr (w :: ws)) = some [jsonbContainsAny (w :: ws)] :=
          congrArg (fun a => some [a]) (arrayCondition_jsonb ht)
        have hlist : applyMultiSelectFilter .eq (.arr (w :: ws)) = [.contains (.arr (w :: ws))] := rfl
        rw [hclause, hlist, Option.bind_some, selected_accepted (l := [.contains (.arr (w :: ws))]) rfl,
          selected_accepted (l := [jsonbContainsAny (w :: ws)]) (by simp [accepted_containsAny])] at hrow
        simp only [List.all_cons, List.all_nil, Bool.and_true] at hrow
        have hany := holds_single env false false c.pgType (w :: ws) s
          (show (⟨some (.json (optionsValue [s])), none, none⟩ : FilterRow Unit).cell = _ from rfl)
        rw [hany.1, hany.2] at hrow
        have hall := (Option.some.inj hrow).trans (List.any_eq_true.2 ⟨v₀, hv₀, hs⟩)
        exact List.all_eq_true.1 hall v hv

end

/-- Which of the filters that the list accepts select the same rows in both, whatever Postgres compares like. -/
theorem sameRows_iff (env : FilterEnv) (c : FilterColumn) (op : FilterOp) (value : FilterValue)
    (hallowed : isListFilterAllowed c op value = true) : SameRows env c op value ↔ Agrees env c op value := by
  refine ⟨fun h => ?_, sameRows_of_agrees hallowed⟩
  have hlist : applyListFilter env c .all op value =
      some (if c.optionList then applyMultiSelectFilter op value else applyScreenFilter env c op value) := by
    simp [applyListFilter, hallowed]
  have hprobes : ProbesAgree env c (if c.optionList then applyMultiSelectFilter op value else
      applyScreenFilter env c op value) (buildWhereClause env c op value) := by
    intro strict lenient row hf
    have hrow := h (probe env strict lenient) (probe_lawful env strict lenient) row hf
    rwa [hlist, Option.bind_some] at hrow
  unfold Agrees
  by_cases hc : c.optionList = true
  · rw [if_pos hc] at hprobes ⊢
    exact optionListAgrees_of_probes hc hprobes
  · rw [if_neg hc] at hprobes ⊢
    have hc : c.optionList = false := by simpa using hc
    unfold applyScreenFilter buildWhereClause at hprobes
    cases hscreen : buildFilterWhere op value with
    | none => trivial
    | some screen =>
      rw [hscreen] at hprobes
      dsimp only at hprobes ⊢
      split
      · next ht => exact jsonbAgrees_of_probes hc ht hprobes
      · next ht => exact scalarAgrees_of_probes hc ht hprobes

/-- No blind index is configured, and no text is an instant. -/
def plainFilterEnv : FilterEnv := ⟨none, fun _ => none, fun _ => true, fun _ _ => true⟩

/-- A multiSelect. -/
def tagsColumn : FilterColumn := ⟨.jsonb, true, false, false, false, false, fun _ => rfl, fun h => nomatch h⟩

/-- One of the options, in an array or not. The probe contains of an array of options what Postgres does. -/
theorem sameRows_iff_tag :
    SameRows plainFilterEnv tagsColumn .eq (.arr [.str "a"]) ∧ SameRows plainFilterEnv tagsColumn .ne (.str "a") ∧
    (buildWhereClause plainFilterEnv tagsColumn .eq (.arr [.str "a"])).bind (SqlCondition.selected
      (probe plainFilterEnv false false) plainFilterEnv .jsonb
      ⟨some (.json (optionsValue ["b", "a"])), none, none⟩) = some true := by
  have hone : SameRows plainFilterEnv tagsColumn .eq (.arr [.str "a"]) :=
    (sameRows_iff plainFilterEnv tagsColumn .eq (.arr [.str "a"]) rfl).2 fun s ⟨v, hv, hs⟩ w hw => by
      rw [List.mem_singleton.1 hw]
      rwa [List.mem_singleton.1 hv] at hs
  refine ⟨hone, (sameRows_iff plainFilterEnv tagsColumn .ne (.str "a") rfl).2 trivial, ?_⟩
  have hrow := hone (probe plainFilterEnv false false) (probe_lawful _ _ _)
    ⟨some (.json (optionsValue ["b", "a"])), none, none⟩ (fits_options rfl ["b", "a"])
  exact hrow.symm.trans (by decide)

/-- Two options: the list asks for rows with both, the where clause for rows with one of them. -/
theorem not_sameRows : ¬ ∀ (env : FilterEnv) (c : FilterColumn) (op : FilterOp) (value : FilterValue),
    isListFilterAllowed c op value = true → SameRows env c op value := fun h => by
  have hrow := h plainFilterEnv tagsColumn .eq (.arr [.str "a", .str "b"]) rfl (probe plainFilterEnv false false)
    (probe_lawful _ _ _) ⟨some (.json (optionsValue ["a"])), none, none⟩ (fits_options rfl ["a"])
  exact absurd hrow (by decide)

end Kumiko
