import Kumiko.Db.ExecutorVerbs
import Kumiko.Library.KeyedRows
import Kumiko.Pipeline.JsonText
import Mathlib.Data.Rat.Defs

/-!
# The config resolver

`config/resolver.ts` and `config/db/queries/resolver.ts`: `getWithSource` goes down the cascade and stops at the
first rung that has a value, `getCascade` builds a level for every rung, `getCascadeBatch` does so over rows it
has loaded, and `getAll` takes the most specific stored row of each key. `readers_agree` says exactly when the
four give the same.
-/

namespace Kumiko

open KeyedRows

/-! ## Keys and rows -/

/-- Reference: `ConfigScopes`. -/
inductive ConfigScope
  | system | tenant | user

/-- Reference: `ConfigKeyType`. -/
inductive ConfigKeyType
  | text | number | boolean | select

inductive ConfigValue
  | text (s : String)
  | number (n : ℚ)
  | boolean (b : Bool)

/-- Reference: `ConfigValueSource`. -/
inductive ConfigValueSource
  | userRow | tenantRow | systemRow | appOverride | computed | default | missing
  deriving DecidableEq

/-- Reference: `ConfigBacking`. -/
inductive ConfigBacking
  | config | secrets
  deriving DecidableEq

/-- The fields of a `ConfigKeyDefinition` that a read uses. At boot a key in the secrets store is of the system's
scope. -/
structure ConfigKeyDefinition where
  type : ConfigKeyType
  default : Option ConfigValue
  scope : ConfigScope
  encrypted : Bool
  piiEncrypted : Bool
  backing : ConfigBacking
  /-- What the function gives for a tenant and a user, or the message that it throws. -/
  computed : Option (String → String → Except String (Option ConfigValue))
  scope_of_secrets : backing = .secrets → scope = .system

/-- Reference: `ConfigRow`. -/
structure ConfigRow where
  id : String
  key : String
  value : Option String
  tenantId : String
  userId : Option String

/-- The columns of the unique index. -/
def ConfigRow.columns (r : ConfigRow) : String × String × Option String := (r.key, r.tenantId, r.userId)

/-- What a read has besides its arguments: the rows of the handle and the order in which a query returns them, the
overrides with an entry for a key, what decrypts a text, the secrets store, and what the language makes of a parsed
value as a number, where that is finite, and as a text. -/
structure ConfigReads where
  rows : List ConfigRow
  order : List ConfigRow → List ConfigRow
  order_perm : ∀ rows, (order rows).Perm rows
  appOverrides : String → Option (Option ConfigValue)
  cipher : Option (String → Except String String)
  kms : Option (String → Except String String)
  secretsReader : Option (String → String → Except String (Option String))
  toNumber : JsonTree → Option ℚ
  toText : JsonTree → String

namespace ConfigReads

variable (reads : ConfigReads)

/-! ## Stored values -/

def typeName : ConfigKeyType → String
  | .text => "text"
  | .number => "number"
  | .boolean => "boolean"
  | .select => "select"

/-- Reference: `deserializeValue`; the message of a text that is no JSON ends here before that of `JSON.parse`. -/
def deserializeValue (raw : Option String) (type : ConfigKeyType) : Except String (Option ConfigValue) :=
  match raw with
  | none => .ok none
  | some raw =>
    match parseJson raw with
    | none => .error ("Invalid JSON in config value (type=" ++ typeName type ++ ")")
    | some parsed =>
      match type with
      | .number =>
        match reads.toNumber parsed with
        | some n => .ok (some (.number n))
        | none => .error ("config value (type=number): \"" ++ raw ++ "\" does not deserialize to a number.")
      | .boolean =>
        match parsed with
        | .bool b => .ok (some (.boolean b))
        | .text s => .ok (some (.boolean (s = "true")))
        | _ => .ok (some (.boolean false))
      | .text | .select => .ok (some (.text (reads.toText parsed)))

/-- Reference: `decryptEncrypted`. -/
def decryptEncrypted (raw qualifiedKey : String) : Except String String :=
  match reads.cipher with
  | none =>
    .error ("[config] key \"" ++ qualifiedKey ++ "\" is encrypted but no cipher is wired — the boot must " ++
      "provide a master key (KUMIKO_SECRETS_MASTER_KEY_V<n>) or pass ConfigResolverOptions.cipher.")
  | some decrypt => decrypt raw

/-- Reference: `decryptPiiEncrypted`. -/
def decryptPiiEncrypted (raw qualifiedKey : String) : Except String String :=
  match reads.kms with
  | none =>
    .error ("[config] key \"" ++ qualifiedKey ++ "\" is piiEncrypted but no PII subject-KMS is wired — the " ++
      "boot must configure one via runProdApp(\x7b kms \x7d) / configurePiiSubjectKms(adapter).")
  | some decrypt => decrypt raw

/-- Reference: `decryptStoredValue`. -/
def decryptStoredValue (raw : String) (keyDef : ConfigKeyDefinition) (qualifiedKey : String) : Except String String :=
  if keyDef.encrypted then reads.decryptEncrypted raw qualifiedKey
  else if keyDef.piiEncrypted then reads.decryptPiiEncrypted raw qualifiedKey
  else .ok raw

/-- Reference: `readBackingSecret`. -/
def readBackingSecret (qualifiedKey : String) : Except String (Option String) :=
  match reads.secretsReader with
  | none =>
    .error ("[config] backing=\"secrets\" key \"" ++ qualifiedKey ++ "\" was read without a secrets " ++
      "reader — wire extraContext.secrets (and a MasterKeyProvider) so the secrets " ++
      "store is reachable at request time.")
  | some read => read systemTenantId qualifiedKey

/-! ## Lookups -/

structure ConfigLookup where
  tenantId : String
  userId : Option String
  source : ConfigValueSource
  label : String

/-- The rows to look up, the most specific first. -/
def lookups (scope : ConfigScope) (tenantId userId : String) : List ConfigLookup :=
  let system : ConfigLookup := ⟨systemTenantId, none, .systemRow, "System"⟩
  let tenant : ConfigLookup := ⟨tenantId, none, .tenantRow, "Tenant"⟩
  match scope with
  | .user => [⟨tenantId, some userId, .userRow, "User"⟩, tenant, system]
  | .tenant => [tenant, system]
  | .system => [system]

/-- Reference: `findRow`, a query with a limit of one. -/
def findRow (key tenantId : String) (userId : Option String) : Option ConfigRow :=
  (reads.order (reads.rows.filter fun r => r.key = key && r.tenantId = tenantId && r.userId = userId)).head?

/-- Reference: `selectConfigRowsForScope`. -/
def selectConfigRowsForScope (tenantId userId : String) : List ConfigRow :=
  reads.order (reads.rows.filter fun r => (r.tenantId = systemTenantId || r.tenantId = tenantId) && r.userId = none) ++
    reads.order (reads.rows.filter fun r => r.tenantId = tenantId && r.userId = some userId)

/-- Reference: `selectConfigRowsForKeys`. -/
def selectConfigRowsForKeys (keys : List String) (tenantId userId : String) : List ConfigRow :=
  if keys.length = 0 then []
  else
    reads.order (reads.rows.filter fun r =>
        r.key ∈ keys && ((r.tenantId = systemTenantId || r.tenantId = tenantId) && r.userId = none)) ++
      reads.order (reads.rows.filter fun r => r.key ∈ keys && (r.tenantId = tenantId && r.userId = some userId))

/-- The value that a row stores. -/
def storedValue (qualifiedKey : String) (keyDef : ConfigKeyDefinition) (value : String) :
    Except String (Option ConfigValue) := do
  let raw ← reads.decryptStoredValue value keyDef qualifiedKey
  reads.deserializeValue (some raw) keyDef.type

/-- The value of a row, where it has one. -/
def rowValue (qualifiedKey : String) (keyDef : ConfigKeyDefinition) (row : Option ConfigRow) :
    Except String (Option (Option ConfigValue)) :=
  match row.bind (·.value) with
  | none => .ok none
  | some value => do
    let value ← reads.storedValue qualifiedKey keyDef value
    return some value

/-! ## One value -/

/-- What the two ladders of `getWithSource` share: override, computed value, default. -/
def withoutRow (qualifiedKey : String) (keyDef : ConfigKeyDefinition) (tenantId userId : String) :
    Except String (Option ConfigValue × ConfigValueSource) :=
  match reads.appOverrides qualifiedKey with
  | some value => .ok (value, .appOverride)
  | none =>
    match keyDef.computed with
    | some computed => do
      let value ← computed tenantId userId
      return (value, .computed)
    | none =>
      match keyDef.default with
      | some value => .ok (some value, .default)
      | none => .ok (none, .missing)

/-- A loop over the lookups that stops at the first value. -/
def firstRung (read : ConfigLookup → Except String (Option (Option ConfigValue))) :
    List ConfigLookup → Except String (Option (Option ConfigValue × ConfigValueSource))
  | [] => .ok none
  | lookup :: rest => do
    match ← read lookup with
    | some value => return some (value, lookup.source)
    | none => firstRung read rest

/-- Reference: `getWithSource`. -/
def getWithSource (qualifiedKey : String) (keyDef : ConfigKeyDefinition) (tenantId userId : String) :
    Except String (Option ConfigValue × ConfigValueSource) :=
  match keyDef.backing with
  | .secrets => do
    match ← reads.readBackingSecret qualifiedKey with
    | some secret =>
      let value ← reads.deserializeValue (some secret) keyDef.type
      return (value, .systemRow)
    | none => reads.withoutRow qualifiedKey keyDef tenantId userId
  | .config => do
    match ← firstRung (fun lookup =>
        reads.rowValue qualifiedKey keyDef (reads.findRow qualifiedKey lookup.tenantId lookup.userId))
      (lookups keyDef.scope tenantId userId) with
    | some found => return found
    | none => reads.withoutRow qualifiedKey keyDef tenantId userId

/-- Reference: `get`. -/
def get (qualifiedKey : String) (keyDef : ConfigKeyDefinition) (tenantId userId : String) :
    Except String (Option ConfigValue) := do
  let result ← reads.getWithSource qualifiedKey keyDef tenantId userId
  return result.1

/-! ## The cascade -/

/-- Reference: `ConfigCascadeLevel`. -/
structure ConfigCascadeLevel where
  label : String
  value : Option ConfigValue
  source : ConfigValueSource
  isActive : Bool
  hasValue : Bool

/-- Reference: `ConfigCascade`. -/
structure ConfigCascade where
  value : Option ConfigValue
  source : ConfigValueSource
  levels : List ConfigCascadeLevel

/-- The levels so far, and the index of the active one. -/
structure CascadeLevels where
  levels : List ConfigCascadeLevel
  activeIndex : Option ℕ

/-- A level is added, and becomes the active one if there is none and it may be. -/
def CascadeLevels.push (c : CascadeLevels) (level : ConfigCascadeLevel) (takes : Bool) : CascadeLevels where
  levels := c.levels ++ [level]
  activeIndex := if c.activeIndex.isNone && takes then some c.levels.length else c.activeIndex

/-- The active level is marked. -/
def CascadeLevels.toCascade (c : CascadeLevels) : ConfigCascade :=
  let active := c.activeIndex.bind (c.levels[·]?)
  { value := active.bind (·.value)
    source := (active.map (·.source)).getD .missing
    levels := match c.activeIndex with
      | some i => c.levels.modify i fun level => { level with isActive := true }
      | none => c.levels }

/-- What a rung of the loop reads: a key of the secrets store its secret, and any other key its row. -/
def rungValue (qualifiedKey : String) (keyDef : ConfigKeyDefinition)
    (fetchRow : String → Option String → Option ConfigRow) (lookup : ConfigLookup) :
    Except String (Option (Option ConfigValue)) :=
  if keyDef.backing = .secrets ∧ lookup.source = .systemRow then do
    match ← reads.readBackingSecret qualifiedKey with
    | some secret =>
      let value ← reads.deserializeValue (some secret) keyDef.type
      return some value
    | none => return none
  else reads.rowValue qualifiedKey keyDef (fetchRow lookup.tenantId lookup.userId)

/-- One pass of the loop over the lookups. -/
def pushRung (qualifiedKey : String) (keyDef : ConfigKeyDefinition)
    (fetchRow : String → Option String → Option ConfigRow) (c : CascadeLevels) (lookup : ConfigLookup) :
    Except String CascadeLevels := do
  match ← reads.rungValue qualifiedKey keyDef fetchRow lookup with
  | some value => return c.push ⟨lookup.label, value, lookup.source, false, true⟩ true
  | none => return c.push ⟨lookup.label, none, lookup.source, false, false⟩ false

/-- The level of the override. -/
def pushOverride (overrideValue : Option ConfigValue) (c : CascadeLevels) : CascadeLevels :=
  c.push ⟨"App-Override", overrideValue, .appOverride, false, overrideValue.isSome⟩ overrideValue.isSome

/-- The level of the computed value. -/
def pushComputed (keyDef : ConfigKeyDefinition) (tenantId userId : String) (c : CascadeLevels) :
    Except String CascadeLevels :=
  match keyDef.computed with
  | some computed => do
    let value ← computed tenantId userId
    return c.push ⟨"Computed", value, .computed, false, true⟩ true
  | none => .ok (c.push ⟨"Computed", none, .computed, false, false⟩ false)

/-- The level of the default, which takes what is left. -/
def pushDefault (keyDef : ConfigKeyDefinition) (c : CascadeLevels) : CascadeLevels :=
  match keyDef.default with
  | some value => c.push ⟨"Default", some value, .default, false, true⟩ true
  | none => c.push ⟨"Default", none, .missing, false, false⟩ true

/-- Reference: `buildCascade`. -/
def buildCascade (qualifiedKey : String) (keyDef : ConfigKeyDefinition) (tenantId userId : String)
    (fetchRow : String → Option String → Option ConfigRow) : Except String ConfigCascade := do
  let c ← (lookups keyDef.scope tenantId userId).foldlM (reads.pushRung qualifiedKey keyDef fetchRow) ⟨[], none⟩
  let c ← pushComputed keyDef tenantId userId (pushOverride ((reads.appOverrides qualifiedKey).bind id) c)
  return (pushDefault keyDef c).toCascade

/-- Reference: `getCascade`. -/
def getCascade (qualifiedKey : String) (keyDef : ConfigKeyDefinition) (tenantId userId : String) :
    Except String ConfigCascade :=
  reads.buildCascade qualifiedKey keyDef tenantId userId (reads.findRow qualifiedKey)

/-- The row among those loaded that the lookup asks for. -/
def preloadedRow (rows : List ConfigRow) (key tenantId : String) (userId : Option String) : Option ConfigRow :=
  (rows.filter (·.key = key)).find? fun r => r.tenantId = tenantId && r.userId = userId

/-- One pass of the loop over the keys of a batch. -/
def putCascade (keyDefs : String → Option ConfigKeyDefinition)
    (build : String → ConfigKeyDefinition → Except String ConfigCascade) (result : List (String × ConfigCascade))
    (key : String) : Except String (List (String × ConfigCascade)) :=
  match keyDefs key with
  | none => .ok result
  | some keyDef => do
    let cascade ← build key keyDef
    return upsert Prod.fst (key, cascade) result

/-- Reference: `getCascadeBatch`. -/
def getCascadeBatch (keys : List String) (keyDefs : String → Option ConfigKeyDefinition) (tenantId userId : String) :
    Except String (List (String × ConfigCascade)) :=
  if keys.length = 0 then .ok []
  else
    let rows := reads.selectConfigRowsForKeys keys tenantId userId
    let build := fun key keyDef => reads.buildCascade key keyDef tenantId userId (preloadedRow rows key)
    keys.foldlM (putCascade keyDefs build) []

/-! ## All rows -/

/-- Reference: `specificityOf`. -/
def specificityOf (r : ConfigRow) : ℕ :=
  (if r.userId.isSome then 2 else 0) + (if r.tenantId ≠ systemTenantId then 1 else 0)

/-- One row of `getAll`. -/
def takeRow (result : List ConfigRow) (r : ConfigRow) : List ConfigRow :=
  match lookup ConfigRow.key r.key result with
  | none => result ++ [r]
  | some existing => if specificityOf existing < specificityOf r then put ConfigRow.key r result else result

/-- Reference: `getAll`; the map has its rows by key. -/
def getAll (tenantId userId : String) : List ConfigRow :=
  (reads.selectConfigRowsForScope tenantId userId).foldl takeRow []

/-! ## The active level -/

namespace CascadeLevels

variable {c : CascadeLevels} {level : ConfigCascadeLevel} {takes : Bool}

/-- The active level is one of the levels, and none is marked yet. -/
structure WF (c : CascadeLevels) : Prop where
  index_lt : ∀ i ∈ c.activeIndex, i < c.levels.length
  unmarked : ∀ level ∈ c.levels, level.isActive = false

/-- Value and source of the active level. -/
def active (c : CascadeLevels) : Option (Option ConfigValue × ConfigValueSource) :=
  (c.activeIndex.bind (c.levels[·]?)).map fun level => (level.value, level.source)

theorem WF.nil : (⟨[], none⟩ : CascadeLevels).WF where
  index_lt _ hi := nomatch hi
  unmarked _ hl := nomatch hl

theorem WF.push (h : c.WF) (hlevel : level.isActive = false) (takes : Bool) : (c.push level takes).WF where
  index_lt i hi := by
    unfold CascadeLevels.push at hi ⊢
    dsimp only at hi ⊢
    rw [List.length_append, List.length_singleton]
    split at hi
    · obtain rfl := Option.some.inj hi
      exact Nat.lt_succ_self _
    · exact Nat.lt_succ_of_lt (h.index_lt i hi)
  unmarked l hl := by
    rcases List.mem_append.1 hl with hl | hl
    · exact h.unmarked l hl
    · rw [List.mem_singleton.1 hl]
      exact hlevel

theorem active_push (h : c.WF) :
    (c.push level takes).active = c.active.or (if takes then some (level.value, level.source) else none) := by
  unfold active CascadeLevels.push
  dsimp only
  cases hi : c.activeIndex with
  | none => cases takes <;> simp
  | some i =>
    have hlt := h.index_lt i hi
    simp [List.getElem?_append_left hlt, hlt]

theorem toCascade_eq (c : CascadeLevels) :
    (c.toCascade.value, c.toCascade.source) = c.active.getD (none, .missing) := by
  unfold CascadeLevels.toCascade active
  dsimp only
  cases c.activeIndex.bind (c.levels[·]?) <;> rfl

theorem filter_modify {levels : List ConfigCascadeLevel} (h : ∀ level ∈ levels, level.isActive = false) :
    ∀ {i : ℕ} (hi : i < levels.length), (levels.modify i fun level => { level with isActive := true }).filter
      (·.isActive) = [{ levels[i] with isActive := true }] := by
  induction levels with
  | nil => exact fun hi => nomatch hi
  | cons l levels ih =>
    have hl := h l List.mem_cons_self
    have hrest : ∀ level ∈ levels, level.isActive = false := fun x hx => h x (List.mem_cons_of_mem _ hx)
    intro i hi
    cases i with
    | zero =>
      have hnone : levels.filter (·.isActive) = [] := List.filter_eq_nil_iff.2 fun x hx => by rw [hrest x hx]; decide
      rw [List.modify_zero_cons, List.filter_cons_of_pos rfl, hnone]
      rfl
    | succ i =>
      rw [List.modify_succ_cons, List.filter_cons_of_neg (by rw [hl]; decide), ih hrest (Nat.lt_of_succ_lt_succ hi)]
      rfl

/-- One level of the cascade is marked, the active one. -/
theorem activeLevel_toCascade (h : c.WF) {found : Option ConfigValue × ConfigValueSource}
    (hactive : c.active = some found) :
    ∃ level, c.toCascade.levels.filter (·.isActive) = [level] ∧ (level.value, level.source) = found := by
  unfold active at hactive
  unfold CascadeLevels.toCascade
  cases hi : c.activeIndex with
  | none =>
    rw [hi] at hactive
    cases hactive
  | some i =>
    have hlt := h.index_lt i hi
    rw [hi, Option.bind_some, List.getElem?_eq_getElem hlt] at hactive
    exact ⟨_, filter_modify h.unmarked hlt, Option.some.inj hactive⟩

end CascadeLevels

/-! ## The loop of the cascade -/

section
variable {reads} {key : String} {keyDef : ConfigKeyDefinition} {tenantId userId e : String}
  {fetchRow : String → Option String → Option ConfigRow} {ls : List ConfigLookup} {c c' : CascadeLevels}

/-- A rung can be read. -/
def Readable (read : ConfigLookup → Except String (Option (Option ConfigValue))) (ls : List ConfigLookup) : Prop :=
  ∀ l ∈ ls, (read l).isOk = true

theorem readable_of_pushRungs (h : ls.foldlM (reads.pushRung key keyDef fetchRow) c = .ok c') :
    Readable (reads.rungValue key keyDef fetchRow) ls := by
  induction ls generalizing c with
  | nil => exact fun _ hl => nomatch hl
  | cons l ls ih =>
    rw [List.foldlM_cons, pushRung] at h
    intro l' hl'
    cases hread : reads.rungValue key keyDef fetchRow l with
    | error e =>
      rw [hread] at h
      cases h
    | ok value =>
      rw [hread] at h
      rcases List.mem_cons.1 hl' with rfl | hl'
      · rw [hread]
        rfl
      · cases value with
        | some value => exact ih h l' hl'
        | none => exact ih h l' hl'

/-- The loop fails with the error that stops the reader of one value. -/
theorem pushRungs_error (h : firstRung (reads.rungValue key keyDef fetchRow) ls = .error e) (c : CascadeLevels) :
    ls.foldlM (reads.pushRung key keyDef fetchRow) c = .error e := by
  induction ls generalizing c with
  | nil => cases h
  | cons l ls ih =>
    rw [List.foldlM_cons, pushRung]
    rw [firstRung] at h
    cases hread : reads.rungValue key keyDef fetchRow l with
    | error e' =>
      rw [hread] at h
      obtain rfl : e' = e := Except.error.inj h
      rfl
    | ok value =>
      rw [hread] at h
      cases value with
      | some value => cases h
      | none => exact ih h _

theorem firstRung_ok {read : ConfigLookup → Except String (Option (Option ConfigValue))} (h : Readable read ls) :
    ∃ found, firstRung read ls = .ok found := by
  induction ls with
  | nil => exact ⟨none, rfl⟩
  | cons l ls ih =>
    obtain ⟨found, hrest⟩ := ih fun l' hl' => h l' (List.mem_cons_of_mem _ hl')
    have hl := h l List.mem_cons_self
    rw [firstRung]
    cases hread : read l with
    | error e =>
      rw [hread] at hl
      cases hl
    | ok value =>
      cases value with
      | some value => exact ⟨_, rfl⟩
      | none => exact ⟨found, hrest⟩

/-- Where every rung can be read, the active level is the one at which the reader of one value stops. -/
theorem pushRungs_ok {found : Option (Option ConfigValue × ConfigValueSource)}
    (h : firstRung (reads.rungValue key keyDef fetchRow) ls = .ok found)
    (hread : Readable (reads.rungValue key keyDef fetchRow) ls) (hc : c.WF) :
    ∃ c', ls.foldlM (reads.pushRung key keyDef fetchRow) c = .ok c' ∧ c'.WF ∧ c'.active = c.active.or found := by
  induction ls generalizing c found with
  | nil =>
    obtain rfl := Except.ok.inj h
    exact ⟨c, rfl, hc, (Option.or_none).symm⟩
  | cons l ls ih =>
    have hrest : Readable (reads.rungValue key keyDef fetchRow) ls :=
      fun l' hl' => hread l' (List.mem_cons_of_mem _ hl')
    have hl := hread l List.mem_cons_self
    rw [List.foldlM_cons, pushRung]
    rw [firstRung] at h
    cases hvalue : reads.rungValue key keyDef fetchRow l with
    | error e =>
      rw [hvalue] at hl
      cases hl
    | ok value =>
      rw [hvalue] at h
      cases value with
      | some value =>
        obtain rfl := Except.ok.inj h
        obtain ⟨found', hfound'⟩ := firstRung_ok hrest
        have hpush : (c.push ⟨l.label, value, l.source, false, true⟩ true).WF := hc.push rfl true
        obtain ⟨c', hfold, hwf, hactive⟩ := ih hfound' hrest hpush
        refine ⟨c', hfold, hwf, ?_⟩
        rw [hactive, CascadeLevels.active_push hc, if_pos rfl, Option.or_assoc, Option.some_or]
      | none =>
        have hpush : (c.push ⟨l.label, none, l.source, false, false⟩ false).WF := hc.push rfl false
        obtain ⟨c', hfold, hwf, hactive⟩ := ih h hrest hpush
        refine ⟨c', hfold, hwf, ?_⟩
        rw [hactive, CascadeLevels.active_push hc, if_neg Bool.false_ne_true, Option.or_none]

/-! ## One value and the cascade -/

/-- The reader of one value goes down the same rungs as the cascade. -/
theorem getWithSource_eq : reads.getWithSource key keyDef tenantId userId = (do
    match ← firstRung (reads.rungValue key keyDef (reads.findRow key)) (lookups keyDef.scope tenantId userId) with
    | some found => return found
    | none => reads.withoutRow key keyDef tenantId userId) := by
  unfold getWithSource
  cases hb : keyDef.backing with
  | config =>
    have hrung : reads.rungValue key keyDef (reads.findRow key) = fun lookup =>
        reads.rowValue key keyDef (reads.findRow key lookup.tenantId lookup.userId) := by
      funext lookup
      have hnot : ¬ (keyDef.backing = .secrets ∧ lookup.source = .systemRow) := fun h => by
        rw [hb] at h
        cases h.1
      rw [rungValue, if_neg hnot]
    rw [hrung]
  | secrets =>
    rw [keyDef.scope_of_secrets hb]
    change _ = firstRung (reads.rungValue key keyDef (reads.findRow key))
      [⟨systemTenantId, none, .systemRow, "System"⟩] >>= _
    have hrung : reads.rungValue key keyDef (reads.findRow key) ⟨systemTenantId, none, .systemRow, "System"⟩ = _ :=
      if_pos ⟨hb, rfl⟩
    rw [firstRung, hrung]
    cases reads.readBackingSecret key with
    | error e => rfl
    | ok secret =>
      cases secret with
      | none => rfl
      | some secret =>
        change (reads.deserializeValue (some secret) keyDef.type >>= _) = _
        cases hvalue : reads.deserializeValue (some secret) keyDef.type <;>
          simp [hvalue, Bind.bind, Except.bind, pure, Except.pure]

/-- Every rung of the cascade can be read, and the computed value. -/
def AllReadable (reads : ConfigReads) (key : String) (keyDef : ConfigKeyDefinition) (tenantId userId : String) : Prop :=
  Readable (reads.rungValue key keyDef (reads.findRow key)) (lookups keyDef.scope tenantId userId) ∧
    ∀ computed ∈ keyDef.computed, (computed tenantId userId).isOk = true

theorem active_pushOverride (hc : c.WF) (overrideValue : Option ConfigValue) :
    (pushOverride overrideValue c).active = c.active.or (overrideValue.map fun v => (some v, .appOverride)) := by
  rw [pushOverride, CascadeLevels.active_push hc]
  cases overrideValue <;> rfl

theorem pushDefault_wf (hc : c.WF) : (pushDefault keyDef c).WF := by
  unfold pushDefault
  split
  · exact hc.push rfl _
  · exact hc.push rfl _

theorem active_pushDefault (hc : c.WF) :
    (pushDefault keyDef c).active =
      some (c.active.getD (keyDef.default, if keyDef.default.isSome then .default else .missing)) := by
  unfold pushDefault
  cases keyDef.default <;> rw [CascadeLevels.active_push hc] <;> cases c.active <;> rfl

/-- The computed value is read in any case, and becomes the active one if there is none. -/
theorem pushComputed_ok (hc : c.WF) (h : pushComputed keyDef tenantId userId c = .ok c') :
    c'.WF ∧ match keyDef.computed with
      | some computed =>
        ∃ value, computed tenantId userId = .ok value ∧ c'.active = c.active.or (some (value, .computed))
      | none => c'.active = c.active := by
  unfold pushComputed at h
  cases hcomputed : keyDef.computed with
  | none =>
    rw [hcomputed] at h
    obtain rfl := Except.ok.inj h
    exact ⟨hc.push rfl _, (CascadeLevels.active_push hc).trans Option.or_none⟩
  | some computed =>
    rw [hcomputed] at h
    dsimp only at h
    cases hvalue : computed tenantId userId with
    | error e =>
      rw [hvalue] at h
      cases h
    | ok value =>
      rw [hvalue] at h
      obtain rfl := Except.ok.inj h
      exact ⟨hc.push rfl _, value, hvalue, CascadeLevels.active_push hc⟩

theorem pushComputed_isOk : (pushComputed keyDef tenantId userId c).isOk = true ↔
    ∀ computed ∈ keyDef.computed, (computed tenantId userId).isOk = true := by
  unfold pushComputed
  cases keyDef.computed with
  | none => exact iff_of_true rfl fun _ h => nomatch h
  | some computed => cases hvalue : computed tenantId userId <;> simp [hvalue, Except.isOk, Except.toBool, Bind.bind,
      Except.bind, pure, Except.pure]

/-- A loop that comes to its end without a value has read every rung. -/
theorem readable_of_firstRung_none {read : ConfigLookup → Except String (Option (Option ConfigValue))}
    (h : firstRung read ls = .ok none) : Readable read ls := by
  induction ls with
  | nil => exact fun _ hl => nomatch hl
  | cons l ls ih =>
    rw [firstRung] at h
    cases hread : read l with
    | error e =>
      rw [hread] at h
      cases h
    | ok value =>
      rw [hread] at h
      cases value with
      | some value => cases h
      | none =>
        intro l' hl'
        rcases List.mem_cons.1 hl' with rfl | hl'
        · rw [hread]
          rfl
        · exact ih h l' hl'

/-- The cascade of a key whose rungs can all be read. -/
theorem buildCascade_ok {found : Option (Option ConfigValue × ConfigValueSource)}
    (hfound : firstRung (reads.rungValue key keyDef fetchRow) (lookups keyDef.scope tenantId userId) = .ok found)
    (hread : Readable (reads.rungValue key keyDef fetchRow) (lookups keyDef.scope tenantId userId))
    (hcomputed : ∀ computed ∈ keyDef.computed, (computed tenantId userId).isOk = true)
    (hoverride : reads.appOverrides key ≠ some none) :
    ∃ cascade, reads.buildCascade key keyDef tenantId userId fetchRow = .ok cascade ∧
      match found with
      | some found => found = (cascade.value, cascade.source)
      | none => reads.withoutRow key keyDef tenantId userId = .ok (cascade.value, cascade.source) := by
  obtain ⟨c₁, hfold, hwf₁, hactive⟩ := pushRungs_ok hfound hread CascadeLevels.WF.nil
  have hwf₂ : (pushOverride ((reads.appOverrides key).bind id) c₁).WF := hwf₁.push rfl _
  cases hpush : pushComputed keyDef tenantId userId (pushOverride ((reads.appOverrides key).bind id) c₁) with
  | error e =>
    have hok := (pushComputed_isOk (c := pushOverride ((reads.appOverrides key).bind id) c₁)).2 hcomputed
    rw [hpush] at hok
    cases hok
  | ok c₂ =>
    obtain ⟨hwf₃, hsecond⟩ := pushComputed_ok hwf₂ hpush
    refine ⟨(pushDefault keyDef c₂).toCascade, ?_, ?_⟩
    · rw [buildCascade, hfold]
      change (pushComputed keyDef tenantId userId (pushOverride ((reads.appOverrides key).bind id) c₁) >>= _) = _
      rw [hpush]
      rfl
    · rw [active_pushOverride hwf₁, hactive] at hsecond
      rw [CascadeLevels.toCascade_eq, active_pushDefault hwf₃, Option.getD_some]
      cases found with
      | some found =>
        have hstays : c₂.active = some found := by
          cases hc : keyDef.computed with
          | none => rwa [hc] at hsecond
          | some computed =>
            rw [hc] at hsecond
            exact hsecond.choose_spec.2
        rw [hstays]
        rfl
      | none =>
        dsimp only
        unfold withoutRow
        cases ho : reads.appOverrides key with
        | some value =>
          cases value with
          | none => exact absurd ho hoverride
          | some value =>
            have hstays : c₂.active = some (some value, .appOverride) := by
              rw [ho] at hsecond
              cases hc : keyDef.computed with
              | none => rwa [hc] at hsecond
              | some computed =>
                rw [hc] at hsecond
                exact hsecond.choose_spec.2
            rw [hstays]
            rfl
        | none =>
          rw [ho] at hsecond
          cases hc : keyDef.computed with
          | none =>
            rw [hc] at hsecond
            have hlast : c₂.active = none := hsecond
            rw [hlast]
            cases keyDef.default <;> rfl
          | some computed =>
            rw [hc] at hsecond
            obtain ⟨value, hvalue, hlast⟩ := hsecond
            dsimp only
            rw [hvalue, hlast]
            rfl

/-- A cascade has read all its rungs. -/
theorem readable_of_buildCascade {cascade : ConfigCascade}
    (h : reads.buildCascade key keyDef tenantId userId fetchRow = .ok cascade) :
    Readable (reads.rungValue key keyDef fetchRow) (lookups keyDef.scope tenantId userId) ∧
      ∀ computed ∈ keyDef.computed, (computed tenantId userId).isOk = true := by
  unfold buildCascade at h
  cases hfold : (lookups keyDef.scope tenantId userId).foldlM (reads.pushRung key keyDef fetchRow) ⟨[], none⟩ with
  | error e =>
    rw [hfold] at h
    cases h
  | ok c =>
    rw [hfold] at h
    refine ⟨readable_of_pushRungs hfold, (pushComputed_isOk
      (c := pushOverride ((reads.appOverrides key).bind id) c)).1 ?_⟩
    cases hpush : pushComputed keyDef tenantId userId (pushOverride ((reads.appOverrides key).bind id) c) with
    | ok c => rfl
    | error e =>
      change (pushComputed keyDef tenantId userId (pushOverride ((reads.appOverrides key).bind id) c) >>= _) = _ at h
      rw [hpush] at h
      cases h

/-- A cascade has one active level, with its value and its source. -/
theorem activeLevel_of_buildCascade {cascade : ConfigCascade}
    (h : reads.buildCascade key keyDef tenantId userId fetchRow = .ok cascade) :
    ∃ level, cascade.levels.filter (·.isActive) = [level] ∧
      (level.value, level.source) = (cascade.value, cascade.source) := by
  obtain ⟨hread, -⟩ := readable_of_buildCascade h
  obtain ⟨found, hfound⟩ := firstRung_ok hread
  obtain ⟨c₁, hfold, hwf₁, -⟩ := pushRungs_ok hfound hread CascadeLevels.WF.nil
  unfold buildCascade at h
  rw [hfold] at h
  change (pushComputed keyDef tenantId userId (pushOverride ((reads.appOverrides key).bind id) c₁) >>= _) = _ at h
  cases hpush : pushComputed keyDef tenantId userId (pushOverride ((reads.appOverrides key).bind id) c₁) with
  | error e =>
    rw [hpush] at h
    cases h
  | ok c₂ =>
    rw [hpush] at h
    obtain rfl := Except.ok.inj h
    have hwf₂ := (pushComputed_ok (hwf₁.push rfl _) hpush).1
    have hactive : (pushDefault keyDef c₂).active = some _ := active_pushDefault hwf₂
    obtain ⟨level, hlevel, hfound⟩ := CascadeLevels.activeLevel_toCascade (pushDefault_wf hwf₂) hactive
    exact ⟨level, hlevel, by rw [CascadeLevels.toCascade_eq, hactive, hfound, Option.getD_some]⟩

/-- What fails the reader of one value below the rows is the computed value. -/
theorem withoutRow_error (h : reads.withoutRow key keyDef tenantId userId = .error e) :
    reads.appOverrides key = none ∧
      ∃ computed, keyDef.computed = some computed ∧ computed tenantId userId = .error e := by
  unfold withoutRow at h
  cases ho : reads.appOverrides key with
  | some value =>
    rw [ho] at h
    cases h
  | none =>
    rw [ho] at h
    refine ⟨rfl, ?_⟩
    cases hc : keyDef.computed with
    | none =>
      rw [hc] at h
      cases hd : keyDef.default <;> rw [hd] at h <;> cases h
    | some computed =>
      rw [hc] at h
      dsimp only at h
      refine ⟨computed, rfl, ?_⟩
      cases hvalue : computed tenantId userId with
      | ok value =>
        rw [hvalue] at h
        cases h
      | error e' =>
        rw [hvalue] at h
        exact congrArg _ (Except.error.inj h)

/-- Where the reader of one value fails, the cascade fails with its error. -/
theorem getCascade_error (h : reads.getWithSource key keyDef tenantId userId = .error e) :
    reads.getCascade key keyDef tenantId userId = .error e := by
  rw [getWithSource_eq] at h
  unfold getCascade buildCascade
  cases hfound : firstRung (reads.rungValue key keyDef (reads.findRow key)) (lookups keyDef.scope tenantId userId) with
  | error e' =>
    rw [hfound] at h
    obtain rfl : e' = e := Except.error.inj h
    rw [pushRungs_error hfound]
    rfl
  | ok found =>
    rw [hfound] at h
    cases found with
    | some found => cases h
    | none =>
      obtain ⟨-, computed, hcomputed, hfails⟩ := withoutRow_error h
      obtain ⟨c, hfold, -, -⟩ := pushRungs_ok hfound (readable_of_firstRung_none hfound)
        CascadeLevels.WF.nil
      rw [hfold]
      change (pushComputed keyDef tenantId userId _ >>= _) = _
      unfold pushComputed
      rw [hcomputed]
      dsimp only
      rw [hfails]
      rfl

theorem buildCascade_isOk
    (hread : Readable (reads.rungValue key keyDef fetchRow) (lookups keyDef.scope tenantId userId))
    (hcomputed : ∀ computed ∈ keyDef.computed, (computed tenantId userId).isOk = true)
    (hoverride : reads.appOverrides key ≠ some none) :
    (reads.buildCascade key keyDef tenantId userId fetchRow).isOk = true := by
  obtain ⟨found, hfound⟩ := firstRung_ok hread
  obtain ⟨cascade, hcascade, -⟩ := buildCascade_ok hfound hread hcomputed hoverride
  rw [hcascade]
  rfl

/-- The cascade is built exactly where all of it can be read. -/
theorem getCascade_isOk (hoverride : reads.appOverrides key ≠ some none) :
    (reads.getCascade key keyDef tenantId userId).isOk = true ↔ reads.AllReadable key keyDef tenantId userId := by
  constructor
  · intro hok
    cases hcascade : reads.getCascade key keyDef tenantId userId with
    | error e =>
      rw [hcascade] at hok
      cases hok
    | ok cascade => exact readable_of_buildCascade hcascade
  · exact fun h => buildCascade_isOk h.1 h.2 hoverride

/-- The active level of a cascade has the one value. -/
theorem getWithSource_of_getCascade (hoverride : reads.appOverrides key ≠ some none) {cascade : ConfigCascade}
    (h : reads.getCascade key keyDef tenantId userId = .ok cascade) :
    ∃ level, cascade.levels.filter (·.isActive) = [level] ∧
      (cascade.value, cascade.source) = (level.value, level.source) ∧
      reads.getWithSource key keyDef tenantId userId = .ok (level.value, level.source) := by
  obtain ⟨hread, hcomputed⟩ := readable_of_buildCascade h
  obtain ⟨level, hlevel, hvalue⟩ := activeLevel_of_buildCascade h
  refine ⟨level, hlevel, hvalue.symm, ?_⟩
  rw [hvalue, getWithSource_eq]
  obtain ⟨rung, hrung⟩ := firstRung_ok hread
  obtain ⟨cascade', hcascade, hagree⟩ := buildCascade_ok hrung hread hcomputed hoverride
  obtain rfl : cascade' = cascade := Except.ok.inj (hcascade.symm.trans h)
  rw [hrung]
  cases rung with
  | some rung => exact congrArg Except.ok hagree
  | none => exact hagree

end

/-! ## The rows of a caller -/

section
variable {reads} {key tenantId userId : String} {keys : List String} {scope : ConfigScope} {r r' : ConfigRow}
  {l : ConfigLookup}

/-- The unique index on key, tenant and user. -/
def UniqueRows (reads : ConfigReads) : Prop := (reads.rows.map ConfigRow.columns).Nodup

/-- A row of the system or the tenant, or of the user in the tenant. -/
def OfCaller (tenantId userId : String) (r : ConfigRow) : Prop :=
  (r.tenantId = systemTenantId ∨ r.tenantId = tenantId) ∧ r.userId = none ∨
    r.tenantId = tenantId ∧ r.userId = some userId

instance (tenantId userId : String) (r : ConfigRow) : Decidable (OfCaller tenantId userId r) :=
  inferInstanceAs (Decidable (_ ∨ _))

/-- A row that a lookup of the scope asks for. -/
def Declared (scope : ConfigScope) (tenantId userId : String) (r : ConfigRow) : Prop :=
  ∃ l ∈ lookups scope tenantId userId, l.tenantId = r.tenantId ∧ l.userId = r.userId

theorem UniqueRows.eq (h : reads.UniqueRows) (hr : r ∈ reads.rows) (hr' : r' ∈ reads.rows)
    (heq : r.columns = r'.columns) : r = r' := List.inj_on_of_nodup_map h hr hr' heq

theorem mem_order {rows : List ConfigRow} : r ∈ reads.order rows ↔ r ∈ rows := (reads.order_perm rows).mem_iff

theorem mem_selectConfigRowsForScope :
    r ∈ reads.selectConfigRowsForScope tenantId userId ↔ r ∈ reads.rows ∧ OfCaller tenantId userId r := by
  simp [selectConfigRowsForScope, mem_order, OfCaller, List.mem_filter, and_or_left]

theorem mem_selectConfigRowsForKeys (hkey : r.key ∈ keys) :
    r ∈ reads.selectConfigRowsForKeys keys tenantId userId ↔ r ∈ reads.rows ∧ OfCaller tenantId userId r := by
  have hlen : keys.length ≠ 0 := fun h => by
    rw [List.length_eq_zero_iff.1 h] at hkey
    cases hkey
  rw [selectConfigRowsForKeys, if_neg hlen]
  simp [mem_order, OfCaller, List.mem_filter, hkey, and_or_left]

theorem ofCaller_of_mem_lookups (hl : l ∈ lookups scope tenantId userId) (htenant : r.tenantId = l.tenantId)
    (huser : r.userId = l.userId) : OfCaller tenantId userId r := by
  unfold OfCaller
  rw [htenant, huser]
  cases scope <;> simp [lookups] at hl
  · simp [hl]
  · rcases hl with rfl | rfl <;> simp
  · rcases hl with rfl | rfl | rfl <;> simp

/-- At most one row has the columns that a query asks for, and it is the one the query finds. -/
theorem head?_eq_some_iff {rows : List ConfigRow} (h : ∀ a ∈ rows, ∀ b ∈ rows, a = b) :
    rows.head? = some r ↔ r ∈ rows := by
  refine ⟨List.mem_of_mem_head?, fun hr => ?_⟩
  cases rows with
  | nil => cases hr
  | cons a rows => rw [List.head?_cons, h a List.mem_cons_self r hr]

theorem findRow_eq_some (h : reads.UniqueRows) {u : Option String} :
    reads.findRow key tenantId u = some r ↔ r ∈ reads.rows ∧ r.columns = (key, tenantId, u) := by
  unfold findRow
  have hmem : ∀ x, x ∈ reads.order (reads.rows.filter fun r => r.key = key && r.tenantId = tenantId && r.userId = u) ↔
      x ∈ reads.rows ∧ x.columns = (key, tenantId, u) := fun x => by
    simp [mem_order, List.mem_filter, ConfigRow.columns, and_assoc]
  rw [head?_eq_some_iff fun a ha b hb => ?_, hmem]
  have ha := (hmem a).1 ha
  have hb := (hmem b).1 hb
  exact h.eq ha.1 hb.1 (ha.2.trans hb.2.symm)

/-- The rows loaded for the keys have the row of each lookup. -/
theorem preloadedRow_eq (h : reads.UniqueRows) (hkey : key ∈ keys) (hl : l ∈ lookups scope tenantId userId) :
    preloadedRow (reads.selectConfigRowsForKeys keys tenantId userId) key l.tenantId l.userId =
      reads.findRow key l.tenantId l.userId := by
  refine Option.ext fun r => ?_
  rw [findRow_eq_some h, preloadedRow, ← List.head?_filter, List.filter_filter]
  have hmem : ∀ x, x ∈ (reads.selectConfigRowsForKeys keys tenantId userId).filter
        (fun r => (r.tenantId = l.tenantId && r.userId = l.userId) && r.key = key) ↔
      x ∈ reads.rows ∧ x.columns = (key, l.tenantId, l.userId) := fun x => by
    rw [List.mem_filter]
    simp only [Bool.and_eq_true, decide_eq_true_eq]
    constructor
    · rintro ⟨hx, ⟨htenant, huser⟩, rfl⟩
      exact ⟨((mem_selectConfigRowsForKeys hkey).1 hx).1, by rw [ConfigRow.columns, htenant, huser]⟩
    · rintro ⟨hx, hcolumns⟩
      obtain ⟨rfl, htenant, huser⟩ : x.key = key ∧ x.tenantId = l.tenantId ∧ x.userId = l.userId := by
        simpa [ConfigRow.columns] using hcolumns
      exact ⟨(mem_selectConfigRowsForKeys hkey).2 ⟨hx, ofCaller_of_mem_lookups hl htenant huser⟩,
        ⟨htenant, huser⟩, rfl⟩
  rw [← hmem, ← head?_eq_some_iff]
  intro a ha b hb
  have ha := (hmem a).1 ha
  have hb := (hmem b).1 hb
  exact h.eq ha.1 hb.1 (ha.2.trans hb.2.symm)

/-- A cascade depends on the fetched rows only at its lookups. -/
theorem buildCascade_congr {keyDef : ConfigKeyDefinition}
    {fetchRow fetchRow' : String → Option String → Option ConfigRow}
    (h : ∀ l ∈ lookups keyDef.scope tenantId userId, fetchRow l.tenantId l.userId = fetchRow' l.tenantId l.userId) :
    reads.buildCascade key keyDef tenantId userId fetchRow =
      reads.buildCascade key keyDef tenantId userId fetchRow' := by
  unfold buildCascade
  have hfold : ∀ ls : List ConfigLookup, (∀ l ∈ ls, fetchRow l.tenantId l.userId = fetchRow' l.tenantId l.userId) →
      ∀ c, ls.foldlM (reads.pushRung key keyDef fetchRow) c = ls.foldlM (reads.pushRung key keyDef fetchRow') c := by
    intro ls
    induction ls with
    | nil => exact fun _ _ => rfl
    | cons l ls ih =>
      intro hls c
      have hrung : reads.pushRung key keyDef fetchRow c l = reads.pushRung key keyDef fetchRow' c l := by
        unfold pushRung rungValue
        rw [hls l List.mem_cons_self]
      rw [List.foldlM_cons, List.foldlM_cons, hrung]
      exact bind_congr fun c => ih (fun l' hl' => hls l' (List.mem_cons_of_mem _ hl')) c
  rw [hfold _ h]

theorem buildCascade_preloadedRow (h : reads.UniqueRows) (hkey : key ∈ keys) (keyDef : ConfigKeyDefinition) :
    reads.buildCascade key keyDef tenantId userId
        (preloadedRow (reads.selectConfigRowsForKeys keys tenantId userId) key) =
      reads.getCascade key keyDef tenantId userId :=
  buildCascade_congr fun _ hl => preloadedRow_eq h hkey hl

/-- No row of another tenant or of another user has a part in what a caller reads. -/
theorem reads_ofCaller (reads : ConfigReads) (tenantId userId : String) :
    let own := { reads with rows := reads.rows.filter (OfCaller tenantId userId ·) }
    (∀ key keyDef, own.getWithSource key keyDef tenantId userId = reads.getWithSource key keyDef tenantId userId ∧
      own.getCascade key keyDef tenantId userId = reads.getCascade key keyDef tenantId userId) ∧
    (∀ keys keyDefs,
      own.getCascadeBatch keys keyDefs tenantId userId = reads.getCascadeBatch keys keyDefs tenantId userId) ∧
    own.getAll tenantId userId = reads.getAll tenantId userId := by
  intro own
  have hrows {p : ConfigRow → Bool} (h : ∀ r, p r = true → OfCaller tenantId userId r) :
      own.rows.filter p = reads.rows.filter p := by
    refine (List.filter_filter ..).trans (List.filter_congr fun r _ => ?_)
    simpa using h r
  have hfind {scope : ConfigScope} (key : String) : ∀ l ∈ lookups scope tenantId userId,
      own.findRow key l.tenantId l.userId = reads.findRow key l.tenantId l.userId := fun l hl =>
    congrArg (fun rows => (reads.order rows).head?) (hrows fun r hr => by
      simp only [Bool.and_eq_true, decide_eq_true_eq] at hr
      exact ofCaller_of_mem_lookups hl hr.1.2 hr.2)
  refine ⟨fun key keyDef => ⟨?_, buildCascade_congr (hfind key)⟩, fun keys keyDefs => ?_, ?_⟩
  · rw [getWithSource_eq, getWithSource_eq]
    have hread := @hfind keyDef.scope key
    generalize lookups keyDef.scope tenantId userId = ls at hread ⊢
    have hrungs : firstRung (own.rungValue key keyDef (own.findRow key)) ls =
        firstRung (reads.rungValue key keyDef (reads.findRow key)) ls := by
      induction ls with
      | nil => rfl
      | cons l ls ih =>
        rw [List.forall_mem_cons] at hread
        rw [firstRung, firstRung, ih hread.2, rungValue, hread.1]
        rfl
    rw [hrungs]
    rfl
  · unfold getCascadeBatch selectConfigRowsForKeys
    rw [hrows, hrows]
    · rfl
    all_goals simp +contextual [OfCaller]
  · unfold getAll selectConfigRowsForScope
    rw [hrows, hrows] <;> simp +contextual [OfCaller]

end

/-! ## The batch -/

section
variable {reads} {tenantId userId : String} {keys : List String} {keyDefs : String → Option ConfigKeyDefinition}

/-- What the loop over the keys leaves, for any cascade of a key. -/
theorem foldlM_putCascade (keyDefs : String → Option ConfigKeyDefinition)
    (build : String → ConfigKeyDefinition → Except String ConfigCascade)
    (ks : List String) (m : List (String × ConfigCascade)) :
    match ks.foldlM (putCascade keyDefs build) m with
    | .ok m' =>
      (∀ key, key ∉ ks → lookup Prod.fst key m' = lookup Prod.fst key m) ∧
        ∀ key ∈ ks, ∀ keyDef ∈ keyDefs key, ∃ cascade, build key keyDef = .ok cascade ∧
          lookup Prod.fst key m' = some (key, cascade)
    | .error e => ∃ key ∈ ks, ∃ keyDef ∈ keyDefs key, build key keyDef = .error e := by
  induction ks generalizing m with
  | nil => exact ⟨fun _ _ => rfl, by simp⟩
  | cons k ks ih =>
    rw [List.foldlM_cons]
    cases hdef : keyDefs k with
    | none =>
      have hstep : putCascade keyDefs build m k = .ok m := by rw [putCascade, hdef]
      have hrest := ih m
      rw [hstep]
      change match ks.foldlM (putCascade keyDefs build) m with | .ok m' => _ | .error e => _
      cases hfold : ks.foldlM (putCascade keyDefs build) m with
      | ok m' =>
        rw [hfold] at hrest
        refine ⟨fun key hkey => hrest.1 key fun h => hkey (List.mem_cons_of_mem _ h), fun key hkey keyDef hkeyDef => ?_⟩
        rcases List.mem_cons.1 hkey with rfl | hkey
        · rw [hdef] at hkeyDef
          cases hkeyDef
        · exact hrest.2 key hkey keyDef hkeyDef
      | error e =>
        rw [hfold] at hrest
        obtain ⟨key, hkey, hfails⟩ := hrest
        exact ⟨key, List.mem_cons_of_mem _ hkey, hfails⟩
    | some keyDef =>
      cases hbuild : build k keyDef with
      | error e =>
        have hstep : putCascade keyDefs build m k = .error e := by
          unfold putCascade
          rw [hdef]
          dsimp only
          rw [hbuild]
          rfl
        rw [hstep]
        exact ⟨k, List.mem_cons_self, keyDef, hdef, hbuild⟩
      | ok cascade =>
        have hstep : putCascade keyDefs build m k = .ok (upsert Prod.fst (k, cascade) m) := by
          unfold putCascade
          rw [hdef]
          dsimp only
          rw [hbuild]
          rfl
        have hrest := ih (upsert Prod.fst (k, cascade) m)
        rw [hstep]
        change match ks.foldlM (putCascade keyDefs build) (upsert Prod.fst (k, cascade) m) with
          | .ok m' => _
          | .error e => _
        cases hfold : ks.foldlM (putCascade keyDefs build) (upsert Prod.fst (k, cascade) m) with
        | ok m' =>
          rw [hfold] at hrest
          refine ⟨fun key hkey => ?_, fun key hkey keyDef' hkeyDef => ?_⟩
          · have hne : k ≠ key := fun h => hkey (h ▸ List.mem_cons_self)
            rw [hrest.1 key fun h => hkey (List.mem_cons_of_mem _ h)]
            exact lookup_upsert_of_ne hne
          · by_cases hlater : key ∈ ks
            · exact hrest.2 key hlater keyDef' hkeyDef
            · obtain rfl : key = k := (List.mem_cons.1 hkey).resolve_right hlater
              obtain rfl : keyDef = keyDef' := Option.some.inj (hdef.symm.trans hkeyDef)
              have hself : lookup Prod.fst (Prod.fst (key, cascade)) (upsert Prod.fst (key, cascade) m) =
                some (key, cascade) := lookup_upsert_self
              exact ⟨cascade, hbuild, (hrest.1 key hlater).trans hself⟩
        | error e =>
          rw [hfold] at hrest
          obtain ⟨key, hkey, hfails⟩ := hrest
          exact ⟨key, List.mem_cons_of_mem _ hkey, hfails⟩

/-- A batch has the cascade of each key, and fails as one of its keys does. -/
theorem getCascadeBatch_spec (h : reads.UniqueRows) :
    match reads.getCascadeBatch keys keyDefs tenantId userId with
    | .ok cascades => ∀ key ∈ keys, ∀ keyDef ∈ keyDefs key, ∃ cascade,
        reads.getCascade key keyDef tenantId userId = .ok cascade ∧ lookup Prod.fst key cascades = some (key, cascade)
    | .error e => ∃ key ∈ keys, ∃ keyDef ∈ keyDefs key, reads.getCascade key keyDef tenantId userId = .error e := by
  unfold getCascadeBatch
  split_ifs with hlen
  · rw [List.length_eq_zero_iff.1 hlen]
    simp
  · let build := fun key keyDef => reads.buildCascade key keyDef tenantId userId
      (preloadedRow (reads.selectConfigRowsForKeys keys tenantId userId) key)
    have hspec := foldlM_putCascade keyDefs build keys []
    dsimp only
    cases hfold : keys.foldlM (putCascade keyDefs build) [] with
    | ok cascades =>
      rw [hfold] at hspec
      intro key hkey keyDef hkeyDef
      rw [← buildCascade_preloadedRow h hkey]
      exact hspec.2 key hkey keyDef hkeyDef
    | error e =>
      rw [hfold] at hspec
      obtain ⟨key, hkey, keyDef, hkeyDef, hfails⟩ := hspec
      exact ⟨key, hkey, keyDef, hkeyDef, (buildCascade_preloadedRow h hkey keyDef).symm.trans hfails⟩

end

/-! ## The most specific row -/

section
variable {reads} {key tenantId userId : String} {keyDef : ConfigKeyDefinition} {scope : ConfigScope}
  {row r r' : ConfigRow} {l : ConfigLookup} {rows : List ConfigRow}

theorem lookup_takeRow_of_ne (h : r.key ≠ key) :
    lookup ConfigRow.key key (takeRow rows r) = lookup ConfigRow.key key rows := by
  unfold takeRow
  split
  · exact lookup_append_of_ne h
  · split
    · exact lookup_put_of_ne h
    · rfl

theorem lookup_takeRow_self : lookup ConfigRow.key r.key (takeRow rows r) =
    some (match lookup ConfigRow.key r.key rows with
      | none => r
      | some existing => if specificityOf existing < specificityOf r then r else existing) := by
  unfold takeRow
  cases hfound : lookup ConfigRow.key r.key rows with
  | none => exact lookup_append_self hfound
  | some existing =>
    dsimp only
    split_ifs with hlt
    · exact lookup_put_self (by rw [hfound]; rfl)
    · exact hfound

/-- The loop keeps for each key a row of the highest specificity that it has seen. -/
theorem lookup_foldl_takeRow (key : String) (rows : List ConfigRow) :
    match lookup ConfigRow.key key (rows.foldl takeRow []) with
    | none => ∀ r ∈ rows, r.key ≠ key
    | some row => row ∈ rows ∧ row.key = key ∧ ∀ r ∈ rows, r.key = key → specificityOf r ≤ specificityOf row := by
  induction rows using List.reverseRecOn with
  | nil => exact fun _ h => nomatch h
  | append_singleton rows r ih =>
    rw [List.foldl_append, List.foldl_cons, List.foldl_nil]
    by_cases hkey : r.key = key
    · subst hkey
      rw [lookup_takeRow_self]
      cases hfound : lookup ConfigRow.key r.key (rows.foldl takeRow []) with
      | none =>
        rw [hfound] at ih
        refine ⟨List.mem_append_right _ List.mem_cons_self, rfl, fun x hx hxkey => ?_⟩
        rcases List.mem_append.1 hx with hx | hx
        · exact absurd hxkey (ih x hx)
        · rw [List.mem_singleton.1 hx]
      | some existing =>
        rw [hfound] at ih
        obtain ⟨hmem, hexisting, hmost⟩ := ih
        dsimp only
        split_ifs with hlt
        · refine ⟨List.mem_append_right _ List.mem_cons_self, rfl, fun x hx hxkey => ?_⟩
          rcases List.mem_append.1 hx with hx | hx
          · exact (hmost x hx hxkey).trans hlt.le
          · rw [List.mem_singleton.1 hx]
        · refine ⟨List.mem_append_left _ hmem, hexisting, fun x hx hxkey => ?_⟩
          rcases List.mem_append.1 hx with hx | hx
          · exact hmost x hx hxkey
          · rw [List.mem_singleton.1 hx]
            exact not_lt.1 hlt
    · rw [lookup_takeRow_of_ne hkey]
      have hother : ∀ x ∈ rows ++ [r], x.key = key → x ∈ rows := fun x hx hxkey => by
        rcases List.mem_append.1 hx with hx | hx
        · exact hx
        · rw [List.mem_singleton.1 hx] at hxkey
          exact absurd hxkey hkey
      cases hfound : lookup ConfigRow.key key (rows.foldl takeRow []) with
      | none =>
        rw [hfound] at ih
        exact fun x hx hxkey => ih x (hother x hx hxkey) hxkey
      | some existing =>
        rw [hfound] at ih
        exact ⟨List.mem_append_left _ ih.1, ih.2.1, fun x hx hxkey => ih.2.2 x (hother x hx hxkey) hxkey⟩

/-- Two rows of the caller for a key differ in specificity. -/
theorem columns_eq_of_specificityOf (hr : OfCaller tenantId userId r) (hr' : OfCaller tenantId userId r')
    (hkey : r.key = r'.key) (heq : specificityOf r = specificityOf r') : r.columns = r'.columns := by
  unfold specificityOf at heq
  rw [ConfigRow.columns, ConfigRow.columns, hkey]
  rcases hr with ⟨ht, hu⟩ | ⟨ht, hu⟩ <;> rcases hr' with ⟨ht', hu'⟩ | ⟨ht', hu'⟩ <;> rw [hu, hu'] at heq ⊢
  · have htenant : r.tenantId = r'.tenantId := by
      rcases ht with ht | ht <;> rcases ht' with ht' | ht' <;> grind
    rw [htenant]
  · grind
  · grind
  · rw [ht, ht']

/-- `getAll` names the most specific row of the caller. -/
theorem lookup_getAll (h : reads.UniqueRows) (hrow : row ∈ reads.rows) (hcaller : OfCaller tenantId userId row) :
    lookup ConfigRow.key row.key (reads.getAll tenantId userId) = some row ↔
      ∀ r ∈ reads.rows, r.key = row.key → OfCaller tenantId userId r → specificityOf r ≤ specificityOf row := by
  have hspec := lookup_foldl_takeRow row.key (reads.selectConfigRowsForScope tenantId userId)
  have hmem := mem_selectConfigRowsForScope.2 ⟨hrow, hcaller⟩
  rw [getAll]
  cases hfound : lookup ConfigRow.key row.key ((reads.selectConfigRowsForScope tenantId userId).foldl takeRow []) with
  | none =>
    rw [hfound] at hspec
    exact absurd rfl (hspec row hmem)
  | some existing =>
    rw [hfound] at hspec
    obtain ⟨hexisting, hkey, hmost⟩ := hspec
    obtain ⟨hin, hof⟩ := mem_selectConfigRowsForScope.1 hexisting
    constructor
    · intro heq r hr hrkey hrcaller
      rw [← Option.some.inj heq]
      exact hmost r (mem_selectConfigRowsForScope.2 ⟨hr, hrcaller⟩) hrkey
    · intro hbest
      have hle := hbest existing hin hkey hof
      have hge := hmost row hmem rfl
      rw [h.eq hin hrow (columns_eq_of_specificityOf hof hcaller hkey (Nat.le_antisymm hle hge))]

/-! ## The row of one value -/

/-- The row that the reader of one value uses: the first of the lookups with a value. -/
def usedRow (reads : ConfigReads) (key : String) (keyDef : ConfigKeyDefinition) (tenantId userId : String) :
    Option ConfigRow :=
  match keyDef.backing with
  | .secrets => none
  | .config => (lookups keyDef.scope tenantId userId).findSome? fun l =>
      (reads.findRow key l.tenantId l.userId).filter (·.value.isSome)

/-- The specificity of the rows that a lookup asks for. -/
def ConfigLookup.specificity (l : ConfigLookup) : ℕ :=
  (if l.userId.isSome then 2 else 0) + (if l.tenantId ≠ systemTenantId then 1 else 0)

theorem specificityOf_eq (htenant : l.tenantId = r.tenantId) (huser : l.userId = r.userId) :
    specificityOf r = l.specificity := by
  rw [specificityOf, ConfigLookup.specificity, htenant, huser]

theorem lookups_pairwise (scope : ConfigScope) (tenantId userId : String) :
    (lookups scope tenantId userId).Pairwise fun l l' => l'.specificity ≤ l.specificity := by
  cases scope <;> simp [lookups, ConfigLookup.specificity]

/-- A row of the caller that no lookup asks for is more specific than those of the lookups. -/
theorem specificity_lt (hcaller : OfCaller tenantId userId r) (h : ¬ Declared scope tenantId userId r)
    (hl : l ∈ lookups scope tenantId userId) : l.specificity < specificityOf r := by
  unfold Declared at h
  unfold OfCaller at hcaller
  unfold specificityOf ConfigLookup.specificity
  cases scope <;>
    simp only [lookups, List.mem_cons, List.not_mem_nil, or_false, exists_eq_or_imp, exists_eq_left] at h hl <;> grind

theorem firstRung_of_findSome? {read : ConfigLookup → Except String (Option (Option ConfigValue))}
    {find : ConfigLookup → Option ConfigRow} {value : ConfigRow → Except String (Option ConfigValue)}
    (hnone : ∀ l, find l = none → read l = .ok none)
    (hsome : ∀ l r, find l = some r → read l = (value r).map some) :
    ∀ {ls : List ConfigLookup}, ls.findSome? find = some row → ∃ l ∈ ls, find l = some row ∧
      firstRung read ls = (value row).map fun v => some (v, l.source)
  | [], h => by cases h
  | l :: ls, h => by
    rw [List.findSome?_cons] at h
    rw [firstRung]
    cases hfind : find l with
    | none =>
      rw [hfind] at h
      obtain ⟨l', hl', hfound, hvalue⟩ := firstRung_of_findSome? hnone hsome h
      rw [hnone l hfind]
      exact ⟨l', List.mem_cons_of_mem _ hl', hfound, hvalue⟩
    | some r =>
      rw [hfind] at h
      obtain rfl := Option.some.inj h
      rw [hsome l r hfind]
      refine ⟨l, List.mem_cons_self, hfind, ?_⟩
      cases value r <;> rfl

/-- What the reader of one value makes of the row that it uses. -/
theorem getWithSource_usedRow (h : reads.usedRow key keyDef tenantId userId = some row) :
    ∃ value ∈ row.value, ∃ l ∈ lookups keyDef.scope tenantId userId,
      reads.findRow key l.tenantId l.userId = some row ∧
      reads.getWithSource key keyDef tenantId userId =
        (reads.storedValue key keyDef value).map fun v => (v, l.source) := by
  unfold usedRow at h
  unfold getWithSource
  cases hb : keyDef.backing with
  | secrets =>
    rw [hb] at h
    cases h
  | config =>
    rw [hb] at h
    have hnone : ∀ l : ConfigLookup, (reads.findRow key l.tenantId l.userId).filter (·.value.isSome) = none →
        reads.rowValue key keyDef (reads.findRow key l.tenantId l.userId) = .ok none := fun l hl => by
      unfold rowValue
      cases hrow : reads.findRow key l.tenantId l.userId with
      | none => rfl
      | some r =>
        rw [hrow] at hl
        cases hvalue : r.value with
        | none => simp [hvalue]
        | some value => simp [hvalue] at hl
    have hsome : ∀ (l : ConfigLookup) r, (reads.findRow key l.tenantId l.userId).filter (·.value.isSome) = some r →
        reads.rowValue key keyDef (reads.findRow key l.tenantId l.userId) =
          (reads.storedValue key keyDef (r.value.getD "")).map some := fun l r hl => by
      obtain ⟨hfound, hset⟩ := Option.filter_eq_some_iff.1 hl
      obtain ⟨value, hvalue⟩ := Option.isSome_iff_exists.1 hset
      rw [hfound, rowValue, Option.bind_some, hvalue]
      dsimp only [Option.getD_some]
      cases reads.storedValue key keyDef value <;> rfl
    obtain ⟨l, hl, hfind, hfirst⟩ := firstRung_of_findSome? hnone hsome h
    obtain ⟨hfound, hset⟩ := Option.filter_eq_some_iff.1 hfind
    obtain ⟨value, hvalue⟩ := Option.isSome_iff_exists.1 hset
    refine ⟨value, hvalue, l, hl, hfound, ?_⟩
    dsimp only
    rw [hfirst, hvalue, Option.getD_some]
    cases reads.storedValue key keyDef value <;> rfl

/-- No row with a value at a lookup is more specific than the one used. -/
theorem specificityOf_le_usedRow (h : reads.UniqueRows) (hused : reads.usedRow key keyDef tenantId userId = some row)
    (hr : r ∈ reads.rows) (hkey : r.key = key) (hdeclared : Declared keyDef.scope tenantId userId r)
    (hvalue : r.value.isSome) : specificityOf r ≤ specificityOf row := by
  unfold usedRow at hused
  cases hb : keyDef.backing with
  | secrets =>
    rw [hb] at hused
    cases hused
  | config =>
    rw [hb] at hused
    obtain ⟨ls₁, a, ls₂, hsplit, ha, hbefore⟩ := List.findSome?_eq_some_iff.1 hused
    obtain ⟨l, hl, htenant, huser⟩ := hdeclared
    have hfound : reads.findRow key l.tenantId l.userId = some r :=
      (findRow_eq_some h).2 ⟨hr, by rw [ConfigRow.columns, hkey, htenant, huser]⟩
    have hfind : (reads.findRow key l.tenantId l.userId).filter (·.value.isSome) = some r := by
      rw [hfound]
      exact Option.filter_eq_some_iff.2 ⟨rfl, hvalue⟩
    have hrowcolumns := ((findRow_eq_some h).1 (Option.filter_eq_some_iff.1 ha).1).2
    have hrowspec : specificityOf row = a.specificity := by
      simp only [ConfigRow.columns, Prod.mk.injEq] at hrowcolumns
      exact specificityOf_eq hrowcolumns.2.1.symm hrowcolumns.2.2.symm
    rw [specificityOf_eq htenant huser, hrowspec]
    have hpairs := lookups_pairwise keyDef.scope tenantId userId
    rw [hsplit] at hl hpairs
    rcases List.mem_append.1 hl with hl | hl
    · have hnone := hbefore l hl
      rw [hfind] at hnone
      cases hnone
    · rcases List.mem_cons.1 hl with rfl | hl
      · exact le_rfl
      · exact List.rel_of_pairwise_cons (List.pairwise_append.1 hpairs).2.1 hl

/-- `getAll` names the row of the one value exactly if the caller has no row of the key in a scope that the key does not
declare, and none without a value above that row. -/
theorem getAll_usedRow (h : reads.UniqueRows) (hused : reads.usedRow key keyDef tenantId userId = some row) :
    lookup ConfigRow.key key (reads.getAll tenantId userId) = some row ↔
      ∀ r ∈ reads.rows, r.key = key → OfCaller tenantId userId r →
        Declared keyDef.scope tenantId userId r ∧ (specificityOf row < specificityOf r → r.value.isSome) := by
  obtain ⟨value, -, l, hl, hfound, -⟩ := getWithSource_usedRow hused
  obtain ⟨hrow, hcolumns⟩ := (findRow_eq_some h).1 hfound
  obtain ⟨hkey, htenant, huser⟩ : row.key = key ∧ row.tenantId = l.tenantId ∧ row.userId = l.userId := by
    simpa [ConfigRow.columns] using hcolumns
  have hcaller := ofCaller_of_mem_lookups hl htenant huser
  have hiff := lookup_getAll h hrow hcaller
  rw [hkey] at hiff
  rw [hiff]
  refine forall₄_congr fun r hr hrkey hrcaller => ?_
  constructor
  · intro hle
    refine ⟨by_contra fun hnot => ?_, fun hlt => absurd hle (not_le.2 hlt)⟩
    have hlt := specificity_lt hrcaller hnot hl
    rw [← specificityOf_eq htenant.symm huser.symm] at hlt
    exact absurd hle (not_le.2 hlt)
  · rintro ⟨hdeclared, hvalue⟩
    by_contra hlt
    exact hlt (specificityOf_le_usedRow h hused hr hrkey hdeclared (hvalue (not_le.1 hlt)))

end

/-! ## The readers agree -/

/-- The readers of a key agree, up to two differences. A cascade reads all the rungs of the key and is built exactly
where all of them can be read; its one active level then has what `getWithSource` gives. `getAll` names the row that
`getWithSource` used exactly if the caller has no row of the key in a scope that the key does not declare, and none
without a value above that row. -/
theorem readers_agree (reads : ConfigReads) (hunique : reads.UniqueRows)
    (hoverrides : ∀ key, reads.appOverrides key ≠ some none) (tenantId userId : String) :
    (∀ key keyDef, reads.get key keyDef tenantId userId =
      (reads.getWithSource key keyDef tenantId userId).map Prod.fst) ∧
    (∀ key keyDef e, reads.getWithSource key keyDef tenantId userId = .error e →
      reads.getCascade key keyDef tenantId userId = .error e) ∧
    (∀ key keyDef, (reads.getCascade key keyDef tenantId userId).isOk = true ↔
      reads.AllReadable key keyDef tenantId userId) ∧
    (∀ key keyDef cascade, reads.getCascade key keyDef tenantId userId = .ok cascade →
      ∃ level, cascade.levels.filter (·.isActive) = [level] ∧
        (cascade.value, cascade.source) = (level.value, level.source) ∧
        reads.getWithSource key keyDef tenantId userId = .ok (level.value, level.source)) ∧
    (∀ keys keyDefs, match reads.getCascadeBatch keys keyDefs tenantId userId with
      | .ok cascades => ∀ key ∈ keys, ∀ keyDef ∈ keyDefs key, ∃ cascade,
          reads.getCascade key keyDef tenantId userId = .ok cascade ∧
            lookup Prod.fst key cascades = some (key, cascade)
      | .error e => ∃ key ∈ keys, ∃ keyDef ∈ keyDefs key, reads.getCascade key keyDef tenantId userId = .error e) ∧
    (∀ key keyDef row, reads.usedRow key keyDef tenantId userId = some row →
      (∃ value ∈ row.value, ∃ l ∈ lookups keyDef.scope tenantId userId,
        reads.findRow key l.tenantId l.userId = some row ∧
        reads.getWithSource key keyDef tenantId userId =
          (reads.storedValue key keyDef value).map fun v => (v, l.source)) ∧
      (lookup ConfigRow.key key (reads.getAll tenantId userId) = some row ↔
        ∀ r ∈ reads.rows, r.key = key → OfCaller tenantId userId r →
          Declared keyDef.scope tenantId userId r ∧ (specificityOf row < specificityOf r → r.value.isSome))) := by
  refine ⟨fun key keyDef => ?_, fun _ _ _ => getCascade_error, fun key _ => getCascade_isOk (hoverrides key),
    fun key _ _ => getWithSource_of_getCascade (hoverrides key), fun _ _ => getCascadeBatch_spec hunique,
    fun _ _ _ hused => ⟨getWithSource_usedRow hused, getAll_usedRow hunique hused⟩⟩
  unfold get
  cases reads.getWithSource key keyDef tenantId userId <;> rfl

/-- A tenant's value under a row of the user that has none, without a secrets store. -/
def unsetUserRow : ConfigReads where
  rows := [⟨"1", "app:color", none, "t", some "u"⟩, ⟨"2", "app:color", some "true", "t", none⟩]
  order := id
  order_perm _ := .refl _
  appOverrides _ := none
  cipher := none
  kms := none
  secretsReader := none
  toNumber _ := none
  toText _ := ""

/-- A switch of the user with a computed value that cannot be had. -/
def switchOfUser : ConfigKeyDefinition where
  type := .boolean
  default := none
  scope := .user
  encrypted := false
  piiEncrypted := false
  backing := .config
  computed := some fun _ _ => .error "no plan"
  scope_of_secrets h := nomatch h

theorem readers_agree_unsetUserRow :
    unsetUserRow.get "app:color" switchOfUser "t" "u" =
        (unsetUserRow.getWithSource "app:color" switchOfUser "t" "u").map Prod.fst ∧
      ((unsetUserRow.getCascade "app:color" switchOfUser "t" "u").isOk = true ↔
        unsetUserRow.AllReadable "app:color" switchOfUser "t" "u") ∧
      ∀ row, unsetUserRow.usedRow "app:color" switchOfUser "t" "u" = some row →
        (lookup ConfigRow.key "app:color" (unsetUserRow.getAll "t" "u") = some row ↔
          ∀ r ∈ unsetUserRow.rows, r.key = "app:color" → OfCaller "t" "u" r →
            Declared .user "t" "u" r ∧ (specificityOf row < specificityOf r → r.value.isSome)) := by
  have hunique : unsetUserRow.UniqueRows := by
    unfold UniqueRows
    decide
  have hoverrides : ∀ key, unsetUserRow.appOverrides key ≠ some none := fun _ h => nomatch h
  obtain ⟨hget, -, hok, -, -, hall⟩ := readers_agree unsetUserRow hunique hoverrides "t" "u"
  exact ⟨hget _ _, hok _ _, fun row hused => (hall "app:color" switchOfUser row hused).2⟩

/-- There `getWithSource` has the tenant's value, while the cascade fails with the computed value behind it and `getAll`
names the row without a value. -/
theorem not_readers_agree :
    unsetUserRow.getWithSource "app:color" switchOfUser "t" "u" = .ok (some (.boolean true), .tenantRow) ∧
      unsetUserRow.getCascade "app:color" switchOfUser "t" "u" = .error "no plan" ∧
      (lookup ConfigRow.key "app:color" (unsetUserRow.getAll "t" "u")).map (·.id) = some "1" ∧
      (unsetUserRow.usedRow "app:color" switchOfUser "t" "u").map (·.id) = some "2" :=
  ⟨rfl, rfl, rfl, rfl⟩

end ConfigReads

end Kumiko
