import Mathlib.Data.List.Basic
import Mathlib.Data.Rat.Defs
import Kumiko.Library.ThreeValued

/-!
# Ownership rules, in SQL and in memory

An access map gives each role a rule: `all`, `from`, which compares a column with a value of the user, or
`where`, authored SQL. `buildOwnershipClause` makes an SQL predicate of the map and `userCanReadFieldRow`
decides it on a row, where a `where` rule grants nothing (`not_ownership_agrees`, `ownership_agrees`).
`FragMeans` is what the renumbering of placeholders preserves.
-/

namespace Kumiko

/-! ## Values of the user and of a row in memory -/

/-- A JavaScript primitive other than `null` and `undefined`. -/
inductive Prim where
  | string (s : String)
  | number (n : ℚ)
  | boolean (b : Bool)
  deriving DecidableEq

/-- A JavaScript value as `===` sees it: an `object` (an array, a `Temporal.Instant`, a parsed JSON value)
equals no other value. -/
inductive JsValue where
  | undefined
  | null
  | prim (p : Prim)
  | object
  deriving DecidableEq

/-- `a === b`, for values that do not share an object. -/
def strictEq : JsValue → JsValue → Bool
  | .undefined, .undefined => true
  | .null, .null => true
  | .prim p, .prim q => p == q
  | _, _ => false

/-- A claim, or `user.id`: one value or an array of values. -/
inductive ClaimValue where
  | scalar (v : JsValue)
  | array (vs : List JsValue)

/-- Reference: `SessionUser`; a claim that is missing is `undefined`. -/
structure SessionUser where
  id : String
  tenantId : String
  roles : List String
  claims : String → ClaimValue

/-- Reference: `FromRuleKind`, with the user field or the claim's qualified name. -/
inductive UserRef where
  | userId
  | userTenantId
  | claim (qualifiedName : String)

/-- Reference: `FromRule`. -/
structure FromRule where
  ref : UserRef
  column : String

/-- Reference: `resolveUserValue`. -/
def resolveUserValue (rule : FromRule) (user : SessionUser) : ClaimValue :=
  match rule.ref with
  | .userId => .scalar (.prim (.string user.id))
  | .userTenantId => .scalar (.prim (.string user.tenantId))
  | .claim qualifiedName => user.claims qualifiedName

/-! ## Tables and authored SQL -/

section
variable {user : SessionUser}


variable {D : Type*}

/-- A row of the table: the value of each column, by the column's SQL name. -/
abbrev DbRow (D : Type*) := String → Option D

/-- A column: its SQL name, the primitive its values show in memory behind the driver's coercion (`none`
for an object), and the value Postgres reads from a bound parameter (`none` when it rejects it). A
primitive read from the column binds back to the value it was read from. -/
structure Column (D : Type*) where
  name : String
  toJs : D → Option Prim
  ofParam : JsValue → Option D
  ofParam_toJs : ∀ d p, toJs d = some p → ofParam (.prim p) = some d

/-- The columns by field name. Reference: `columnSqlName`, with the column's type. -/
abbrev OwnedTable (D : Type*) := String → Option (Column D)

/-- A row as the in-memory checks get it. -/
def jsRow (table : OwnedTable D) (row : DbRow D) (field : String) : JsValue :=
  match table field with
  | none => .undefined
  | some col =>
    match row col.name with
    | none => .null
    | some d =>
      match col.toJs d with
      | none => .object
      | some p => .prim p

/-- A `$N` in a text: a placeholder, or digits behind a dollar sign inside a string constant. Placeholders
count from 0, so `$1` is `placeholder 0`. -/
inductive Spot where
  | placeholder (i : ℕ)
  | constant (n : ℕ)

/-- What a `$N` stands for when the statement runs. -/
inductive SpotValue where
  | param (v : Option JsValue)
  | digits (n : ℕ)
  deriving DecidableEq

def Spot.value (params : List JsValue) : Spot → SpotValue
  | .placeholder i => .param params[i]?
  | .constant n => .digits n

/-- What the author of a `where` rule returns at `paramStart` 0: the `$N` of the text in order, the
parameters, whether the text passes `assertQualifiedWhereFragment`, and what the text says of a row. Its
placeholders are numbered from `paramStart` on, one for each of its parameters at most.
Reference: `SqlFragment`, `WhereRuleContext`. -/
structure WhereFragment (D : Type*) where
  spots : List Spot
  params : List JsValue
  qualified : Bool
  meaning : List SpotValue → DbRow D → Truth
  inRange : ∀ i, Spot.placeholder i ∈ spots → i < params.length

/-- The author's `$paramStart`, `$paramStart+1`, … -/
def Spot.startingAt (paramStart : ℕ) : Spot → Spot
  | .placeholder i => .placeholder (paramStart + i)
  | .constant n => .constant n

/-- Reference: `OwnershipRule`. -/
inductive OwnershipRule (D : Type*) where
  | all
  | fromRule (rule : FromRule)
  | whereRule (rule : SessionUser → WhereFragment D)

/-- Reference: `OwnershipMap`; an absent map is treated as the empty one. -/
abbrev OwnershipMap (D : Type*) := List (String × OwnershipRule D)

/-! ## The check in memory -/

/-- A `from` rule on a row. Reference: `matchesRule`. -/
def matchesRule (rule : FromRule) (user : SessionUser) (row : String → JsValue) : Bool :=
  match resolveUserValue rule user with
  | .scalar .undefined => false
  | userValue =>
    match row rule.column with
    | .undefined => false
    | .null => false
    | rowValue =>
      match userValue with
      | .array vs => vs.any fun v => strictEq v rowValue
      | .scalar v => strictEq v rowValue

/-- One of the user's roles has a rule that accepts the row; a `where` rule is skipped.
Reference: `userCanReadFieldRow`. -/
def userCanReadFieldRow (user : SessionUser) (accessMap : OwnershipMap D) (row : String → JsValue) : Bool :=
  accessMap.isEmpty || user.roles.any fun role =>
    match accessMap.lookup role with
    | none => false
    | some .all => true
    | some (.whereRule _) => false
    | some (.fromRule rule) => matchesRule rule user row

/-! ## The SQL predicate -/

/-- A predicate's text, parsed. -/
inductive SqlText (D : Type*) where
  | true
  | eqParam (col : Column D) (i : ℕ)
  | inParams (col : Column D) (is : List ℕ)
  | authored (spots : List Spot) (meaning : List SpotValue → DbRow D → Truth)
  | or (a b : SqlText D)
  | and (a b : SqlText D)

/-- Reference: `SqlFragment`. -/
structure SqlFragment (D : Type*) where
  sqlText : SqlText D
  params : List JsValue

/-- Reference: `OwnershipClause`. -/
inductive OwnershipClause (D : Type*) where
  | pass
  | empty
  | sql (fragment : SqlFragment D)

def Spot.shift (shift : ℕ) : Spot → Spot
  | .placeholder i => .placeholder (i + shift)
  | .constant n => .constant (n + shift)

/-- Every `$N` of the text becomes `$(N+shift)`, inside string constants too. Reference: `shiftParams`. -/
def SqlText.shiftParams (shift : ℕ) : SqlText D → SqlText D
  | .true => .true
  | .eqParam col i => .eqParam col (i + shift)
  | .inParams col is => .inParams col (is.map (· + shift))
  | .authored spots meaning => .authored (spots.map (Spot.shift shift)) meaning
  | .or a b => .or (a.shiftParams shift) (b.shiftParams shift)
  | .and a b => .and (a.shiftParams shift) (b.shiftParams shift)

/-- Reference: `shiftParams`. -/
def shiftParams (fragment : SqlFragment D) (shift : ℕ) : SqlFragment D :=
  ⟨fragment.sqlText.shiftParams shift, fragment.params⟩

/-- A where rule whose text has an unqualified column. Reference: `assertQualifiedWhereFragment`. -/
inductive OwnershipError where
  | unqualifiedWhere

/-- A rule's fragment, `none` when it accepts no row. Reference: `ruleToFragment`. -/
def ruleToFragment (rule : OwnershipRule D) (user : SessionUser) (table : OwnedTable D)
    (paramStart : ℕ) : Except OwnershipError (Option (SqlFragment D)) :=
  match rule with
  | .all => .ok (some ⟨.true, []⟩)
  | .whereRule rule =>
    let frag := rule user
    if frag.qualified then
      .ok (some ⟨.authored (frag.spots.map (Spot.startingAt paramStart)) frag.meaning, frag.params⟩)
    else .error .unqualifiedWhere
  | .fromRule rule =>
    match table rule.column with
    | none => .ok none
    | some col =>
      match resolveUserValue rule user with
      | .scalar .undefined => .ok none
      | .scalar .null => .ok none
      | .array [] => .ok none
      | .array vs => .ok (some ⟨.inParams col (List.range' paramStart vs.length), vs⟩)
      | .scalar v => .ok (some ⟨.eqParam col paramStart, [v]⟩)

/-- `(c1) OR (c2) OR …` -/
def joinOr : SqlFragment D → List (SqlFragment D) → SqlText D
  | c, [] => c.sqlText
  | c, c' :: cs => .or c.sqlText (joinOr c' cs)

/-- The loop of `buildOwnershipClause` over the user's roles. -/
def buildLoop (user : SessionUser) (accessMap : OwnershipMap D) (table : OwnedTable D) :
    List String → List (SqlFragment D) → Bool → ℕ → Except OwnershipError (OwnershipClause D)
  | [], clauses, anyRoleMatched, _ =>
    if anyRoleMatched then
      match clauses with
      | [] => .ok .empty
      | c :: cs => .ok (.sql ⟨joinOr c cs, (c :: cs).flatMap (·.params)⟩)
    else .ok .empty
  | role :: roles, clauses, anyRoleMatched, nextParamIdx =>
    match accessMap.lookup role with
    | none => buildLoop user accessMap table roles clauses anyRoleMatched nextParamIdx
    | some .all => .ok .pass
    | some rule =>
      match ruleToFragment rule user table nextParamIdx with
      | .error e => .error e
      | .ok none => buildLoop user accessMap table roles clauses true nextParamIdx
      | .ok (some resolved) =>
        buildLoop user accessMap table roles (clauses ++ [resolved]) true
          (nextParamIdx + resolved.params.length)

/-- Reference: `buildOwnershipClause`. -/
def buildOwnershipClause (user : SessionUser) (accessMap : OwnershipMap D) (table : OwnedTable D)
    (paramStart : ℕ) : Except OwnershipError (OwnershipClause D) :=
  if accessMap.isEmpty then .ok .pass
  else buildLoop user accessMap table user.roles [] false paramStart

/-- Reference: `combineClauses`. -/
def combineClauses : OwnershipClause D → OwnershipClause D → OwnershipClause D
  | .empty, _ => .empty
  | _, .empty => .empty
  | .pass, b => b
  | a, .pass => a
  | .sql a, .sql b =>
    let shifted := shiftParams b a.params.length
    .sql ⟨.and a.sqlText shifted.sqlText, a.params ++ shifted.params⟩

/-! ## What a predicate selects -/

variable [DecidableEq D] {row : DbRow D} {table : OwnedTable D}

/-- The value of a bound parameter at a column's type; `NULL` for `null`. -/
def Column.paramValue (col : Column D) : JsValue → Option D
  | .null => none
  | v => col.ofParam v

/-- `"col" = $i` -/
def Column.evalEq (col : Column D) (row : DbRow D) (param : Option JsValue) : Truth :=
  .compare (fun a b => a == b) (row col.name) (param.bind col.paramValue)

/-- Whether Postgres accepts a bound parameter where the column is compared with it. -/
def Column.accepts (col : Column D) : Option JsValue → Bool
  | none => false
  | some .null => true
  | some v => (col.ofParam v).isSome

/-- The truth value of a text on a row, with its parameters bound. -/
def SqlText.eval (params : List JsValue) (row : DbRow D) : SqlText D → Truth
  | .true => some Bool.true
  | .eqParam col i => col.evalEq row params[i]?
  | .inParams col is => (is.map fun i => col.evalEq row params[i]?).foldr Truth.or (some false)
  | .authored spots meaning => meaning (spots.map (Spot.value params)) row
  | .or a b => (a.eval params row).or (b.eval params row)
  | .and a b => (a.eval params row).and (b.eval params row)

/-- Whether every parameter can be bound; a statement with one that cannot fails as a whole. -/
def SqlText.binds (params : List JsValue) : SqlText D → Bool
  | .true => Bool.true
  | .eqParam col i => col.accepts params[i]?
  | .inParams col is => is.all fun i => col.accepts params[i]?
  | .authored _ _ => Bool.true
  | .or a b => a.binds params && b.binds params
  | .and a b => a.binds params && b.binds params

/-- Whether a statement with this clause, with `pre` bound before the clause's parameters and `post` behind
them, returns the row. -/
def selects (pre post : List JsValue) (clause : OwnershipClause D) (row : DbRow D) : Bool :=
  match clause with
  | .pass => true
  | .empty => false
  | .sql fragment =>
    let params := pre ++ fragment.params ++ post
    fragment.sqlText.binds params && (fragment.sqlText.eval params row).holds

/-- The clause as a caller embeds it behind `shift` parameters of its own.
Reference: `bindShiftedClause`. -/
def OwnershipClause.shifted (shift : ℕ) : OwnershipClause D → OwnershipClause D
  | .sql fragment => .sql (shiftParams fragment shift)
  | clause => clause

/-- A `where` rule's text is true of the row. -/
def WhereFragment.holds (frag : WhereFragment D) (row : DbRow D) : Bool :=
  (frag.meaning (frag.spots.map (Spot.value frag.params)) row).holds

/-- One of the user's roles carries a `where` rule that is true of the row. -/
def whereGrants (user : SessionUser) (accessMap : OwnershipMap D) (row : DbRow D) : Bool :=
  user.roles.any fun role =>
    match accessMap.lookup role with
    | some (.whereRule rule) => (rule user).holds row
    | _ => false

/-! ## Which rules and claims the agreement is about -/

/-- The value is null or shown in memory by some value of the column. -/
def JsValue.OfColumn (col : Column D) : JsValue → Prop
  | .null => True
  | .prim p => ∃ d, col.toJs d = some p
  | _ => False

/-- A claim of the column's type; an absent claim is of every type. -/
def ClaimValue.OfColumn (col : Column D) : ClaimValue → Prop
  | .scalar .undefined => True
  | .scalar v => v.OfColumn col
  | .array vs => ∀ v ∈ vs, v.OfColumn col

/-- A `from` rule compares values of one type; an authored text qualifies its columns and has no `$N`
inside a string constant. -/
def OwnershipRule.WellTyped (user : SessionUser) (table : OwnedTable D) : OwnershipRule D → Prop
  | .all => True
  | .fromRule rule =>
    ∀ col, table rule.column = some col → (resolveUserValue rule user).OfColumn col
  | .whereRule rule =>
    (rule user).qualified = true ∧ ∀ n, Spot.constant n ∉ (rule user).spots

def WellTyped (user : SessionUser) (accessMap : OwnershipMap D) (table : OwnedTable D) : Prop :=
  ∀ role ∈ user.roles, ∀ rule, accessMap.lookup role = some rule → rule.WellTyped user table

/-! ## One comparison -/

variable {col : Column D}

omit [DecidableEq D] in
theorem Column.accepts_of_ofColumn {v : JsValue} (hv : v.OfColumn col) :
    col.accepts (some v) = true := by
  cases v with
  | null => rfl
  | prim p =>
    obtain ⟨d, hd⟩ := hv
    simp [Column.accepts, col.ofParam_toJs d p hd]
  | undefined => exact hv.elim
  | object => exact hv.elim

/-- On values of one type SQL's `=` is true exactly where `===` is, and on a null column it is not true. -/
theorem Column.holds_evalEq {v : JsValue} (hv : v.OfColumn col) (row : DbRow D) :
    (col.evalEq row (some v)).holds =
      match row col.name with
      | none => false
      | some d => strictEq v ((col.toJs d).elim .object .prim) := by
  cases hrow : row col.name with
  | none => simp [Column.evalEq, hrow]
  | some d =>
    cases v with
    | null => cases hd : col.toJs d <;> simp [Column.evalEq, Column.paramValue, strictEq, hd]
    | prim p =>
      obtain ⟨e, he⟩ := hv
      simp only [Column.evalEq, hrow, Option.bind_some, Column.paramValue, col.ofParam_toJs e p he,
        Truth.holds_compare_some]
      cases hd : col.toJs d with
      | none =>
        have hne : d ≠ e := by
          rintro rfl
          simp [hd] at he
        simpa [strictEq] using hne
      | some q =>
        rw [Bool.eq_iff_iff]
        simp only [beq_iff_eq, Option.elim_some, strictEq]
        constructor
        · rintro rfl
          exact Option.some.inj (he.symm.trans hd)
        · rintro rfl
          exact Option.some.inj ((col.ofParam_toJs d p hd).symm.trans (col.ofParam_toJs e p he))
    | undefined => exact hv.elim
    | object => exact hv.elim

/-! ## What a fragment says, wherever it is bound -/

/-- No `$N` of the text is inside a string constant. -/
def SqlText.NoConstants : SqlText D → Prop
  | .authored spots _ => ∀ n, Spot.constant n ∉ spots
  | .or a b => a.NoConstants ∧ b.NoConstants
  | .and a b => a.NoConstants ∧ b.NoConstants
  | _ => True

/-- A fragment numbered from `start` binds and says `t` of the row, whatever else the statement binds before
and behind its parameters. -/
structure FragMeans (row : DbRow D) (start : ℕ) (frag : SqlFragment D) (t : Bool) : Prop where
  binds : ∀ pre post, pre.length = start → frag.sqlText.binds (pre ++ frag.params ++ post) = true
  holds : ∀ pre post, pre.length = start →
    (frag.sqlText.eval (pre ++ frag.params ++ post) row).holds = t
  noConstants : frag.sqlText.NoConstants

/-- Fragments numbered one behind the other; `t` is their disjunction. -/
def SeqMeans (row : DbRow D) : ℕ → List (SqlFragment D) → Bool → Prop
  | _, [], t => t = false
  | start, f :: fs, t => ∃ t₁ t₂, FragMeans row start f t₁ ∧
      SeqMeans row (start + f.params.length) fs t₂ ∧ t = (t₁ || t₂)

def ClauseMeans (row : DbRow D) (start : ℕ) (clause : OwnershipClause D) (t : Bool) : Prop :=
  match clause with
  | .pass => t = true
  | .empty => t = false
  | .sql fragment => FragMeans row start fragment t

theorem ClauseMeans.selects {start : ℕ} {clause : OwnershipClause D} {t : Bool}
    (h : ClauseMeans row start clause t) {pre : List JsValue} (hpre : pre.length = start)
    (post : List JsValue) : selects pre post clause row = t := by
  cases clause with
  | pass => exact h.symm
  | empty => exact h.symm
  | sql fragment =>
    simp only [Kumiko.selects, h.binds pre post hpre, h.holds pre post hpre, Bool.true_and]

/-! ### Shifting -/

omit [DecidableEq D] in
theorem Spot.value_shift (outer params : List JsValue) {s : Spot} (hs : ∀ n, s ≠ .constant n) :
    (s.shift outer.length).value (outer ++ params) = s.value params := by
  cases s with
  | placeholder i =>
    simp only [Spot.shift, Spot.value]
    rw [List.getElem?_append_right (by omega), Nat.add_sub_cancel]
  | constant n => exact (hs n rfl).elim

omit [DecidableEq D] in
/-- A shifted text binds behind `outer` what the text bound. -/
theorem SqlText.binds_shiftParams (outer params : List JsValue) (text : SqlText D) :
    (text.shiftParams outer.length).binds (outer ++ params) = text.binds params := by
  induction text with
  | true => rfl
  | eqParam col i =>
    simp only [SqlText.shiftParams, SqlText.binds]
    rw [List.getElem?_append_right (by omega), Nat.add_sub_cancel]
  | inParams col is =>
    simp only [SqlText.shiftParams, SqlText.binds, List.all_map]
    congr 1
    funext i
    rw [Function.comp_apply, List.getElem?_append_right (by omega), Nat.add_sub_cancel]
  | authored spots meaning => rfl
  | or a b iha ihb => simp only [SqlText.shiftParams, SqlText.binds, iha, ihb]
  | and a b iha ihb => simp only [SqlText.shiftParams, SqlText.binds, iha, ihb]

/-- A shifted text says behind `outer` what the text said. -/
theorem SqlText.eval_shiftParams (outer params : List JsValue) (row : DbRow D) {text : SqlText D}
    (hno : text.NoConstants) :
    (text.shiftParams outer.length).eval (outer ++ params) row = text.eval params row := by
  induction text with
  | true => rfl
  | eqParam col i =>
    simp only [SqlText.shiftParams, SqlText.eval]
    rw [List.getElem?_append_right (by omega), Nat.add_sub_cancel]
  | inParams col is =>
    simp only [SqlText.shiftParams, SqlText.eval, List.map_map]
    congr 2
    funext i
    rw [Function.comp_apply, List.getElem?_append_right (by omega), Nat.add_sub_cancel]
  | authored spots meaning =>
    simp only [SqlText.shiftParams, SqlText.eval, List.map_map]
    congr 1
    refine List.map_congr_left fun s hs => Spot.value_shift outer params ?_
    rintro n rfl
    exact hno n hs
  | or a b iha ihb => simp only [SqlText.shiftParams, SqlText.eval, iha hno.1, ihb hno.2]
  | and a b iha ihb => simp only [SqlText.shiftParams, SqlText.eval, iha hno.1, ihb hno.2]

omit [DecidableEq D] in
theorem SqlText.noConstants_shiftParams {text : SqlText D} (hno : text.NoConstants) (shift : ℕ) :
    (text.shiftParams shift).NoConstants := by
  induction text with
  | authored spots meaning =>
    intro n hn
    obtain ⟨s, hs, hsn⟩ := List.mem_map.mp hn
    cases s with
    | placeholder i => cases hsn
    | constant m => exact hno m hs
  | or a b iha ihb => exact ⟨iha hno.1, ihb hno.2⟩
  | and a b iha ihb => exact ⟨iha hno.1, ihb hno.2⟩
  | _ => trivial

/-- `shiftParams` moves a fragment to a later start. -/
theorem FragMeans.shift {frag : SqlFragment D} {t : Bool} (h : FragMeans row 0 frag t)
    (shift : ℕ) : FragMeans row shift (shiftParams frag shift) t where
  binds pre post hpre := by
    subst hpre
    rw [List.append_assoc]
    have hb := h.binds [] post rfl
    rw [List.nil_append] at hb
    exact (SqlText.binds_shiftParams pre _ _).trans hb
  holds pre post hpre := by
    subst hpre
    have hh := h.holds [] post rfl
    rw [List.nil_append] at hh
    rw [List.append_assoc, ← hh]
    exact congrArg Truth.holds (SqlText.eval_shiftParams pre _ row h.noConstants)
  noConstants := SqlText.noConstants_shiftParams h.noConstants shift

/-! ### Combining -/

/-- Two fragments numbered one behind the other, joined by a connective. -/
theorem FragMeans.join {start : ℕ} {a b : SqlFragment D} {t₁ t₂ t : Bool} {text : SqlText D}
    (ha : FragMeans row start a t₁) (hb : FragMeans row (start + a.params.length) b t₂)
    (hbinds : ∀ params, text.binds params = (a.sqlText.binds params && b.sqlText.binds params))
    (hholds : ∀ params, (a.sqlText.eval params row).holds = t₁ → (b.sqlText.eval params row).holds = t₂ →
      (text.eval params row).holds = t)
    (hconst : text.NoConstants) : FragMeans row start ⟨text, a.params ++ b.params⟩ t where
  binds pre post hpre := by
    have h₁ := ha.binds pre (b.params ++ post) hpre
    have h₂ := hb.binds (pre ++ a.params) post (by simp [hpre])
    simp only [List.append_assoc] at h₁ h₂
    simp [hbinds, List.append_assoc, h₁, h₂]
  holds pre post hpre := by
    have h₁ := ha.holds pre (b.params ++ post) hpre
    have h₂ := hb.holds (pre ++ a.params) post (by simp [hpre])
    simp only [List.append_assoc] at h₁ h₂
    rw [List.append_assoc, List.append_assoc]
    exact hholds _ h₁ h₂
  noConstants := hconst

theorem ClauseMeans.combine {a b : OwnershipClause D} {t₁ t₂ : Bool}
    (ha : ClauseMeans row 0 a t₁) (hb : ClauseMeans row 0 b t₂) :
    ClauseMeans row 0 (combineClauses a b) (t₁ && t₂) := by
  cases a with
  | empty =>
    obtain rfl : t₁ = false := ha
    rfl
  | pass =>
    obtain rfl : t₁ = true := ha
    cases b <;> simpa [combineClauses] using hb
  | sql a =>
    cases b with
    | empty =>
      obtain rfl : t₂ = false := hb
      simp [combineClauses, ClauseMeans]
    | pass =>
      obtain rfl : t₂ = true := hb
      simpa [combineClauses] using ha
    | sql b =>
      have hshift : FragMeans row (0 + a.params.length) (shiftParams b a.params.length) t₂ := by
        rw [Nat.zero_add]
        exact FragMeans.shift hb _
      exact ha.join hshift (fun _ => rfl) (fun _ h₁ h₂ => by simp [SqlText.eval, h₁, h₂])
        ⟨ha.noConstants, hshift.noConstants⟩

theorem ClauseMeans.shifted {clause : OwnershipClause D} {t : Bool}
    (h : ClauseMeans row 0 clause t) (shift : ℕ) : ClauseMeans row shift (clause.shifted shift) t := by
  cases clause with
  | sql fragment => exact FragMeans.shift h shift
  | pass => exact h
  | empty => exact h

theorem SeqMeans.joinOr {start : ℕ} {c : SqlFragment D} {cs : List (SqlFragment D)}
    {t : Bool} (h : SeqMeans row start (c :: cs) t) :
    FragMeans row start ⟨joinOr c cs, (c :: cs).flatMap (·.params)⟩ t := by
  induction cs generalizing c start t with
  | nil =>
    obtain ⟨t₁, t₂, hc, rfl, rfl⟩ := h
    simpa [Kumiko.joinOr] using hc
  | cons c' cs ih =>
    obtain ⟨t₁, t₂, hc, hcs, rfl⟩ := h
    have htail := ih hcs
    exact hc.join htail (fun _ => rfl) (fun _ h₁ h₂ => by simp [Kumiko.joinOr, SqlText.eval, h₁, h₂])
      ⟨hc.noConstants, htail.noConstants⟩

theorem SeqMeans.append {start : ℕ} {fs : List (SqlFragment D)} {t t' : Bool}
    {f : SqlFragment D} (h : SeqMeans row start fs t)
    (hf : FragMeans row (start + (fs.flatMap (·.params)).length) f t') :
    SeqMeans row start (fs ++ [f]) (t || t') := by
  induction fs generalizing start t with
  | nil =>
    obtain rfl : t = false := h
    exact ⟨t', false, by simpa using hf, rfl, by simp⟩
  | cons g fs ih =>
    obtain ⟨t₁, t₂, hg, hfs, rfl⟩ := h
    refine ⟨t₁, t₂ || t', hg, ih hfs ?_, by rw [Bool.or_assoc]⟩
    simpa [Nat.add_assoc] using hf

/-! ## What the loop builds -/

/-- What a rule says of a row: in memory, or by its text. -/
def OwnershipRule.grants (user : SessionUser) (table : OwnedTable D) (row : DbRow D) :
    OwnershipRule D → Bool
  | .all => true
  | .fromRule rule => matchesRule rule user (jsRow table row)
  | .whereRule rule => (rule user).holds row

/-- The fragment of a rule, or its absence, says what the rule says. -/
def RuleMeans (row : DbRow D) (start : ℕ) (frag : Option (SqlFragment D)) (t : Bool) : Prop :=
  match frag with
  | none => t = false
  | some f => FragMeans row start f t

omit [DecidableEq D] in
/-- The parameters of an `IN` list are the values themselves. -/
theorem map_getElem?_range' (pre vs post : List JsValue) :
    (List.range' pre.length vs.length).map (fun i => (pre ++ vs ++ post)[i]?) = vs.map some := by
  refine List.ext_getElem (by simp) fun j hj _ => ?_
  have hjv : j < vs.length := by simpa using hj
  rw [List.getElem_map, List.getElem_map, List.getElem_range', List.append_assoc,
    List.getElem?_append_right (by omega), List.getElem?_append_left (by omega),
    List.getElem?_eq_getElem (by omega)]
  congr 2
  omega

theorem holds_foldr_or (ts : List Truth) :
    (ts.foldr Truth.or (some false)).holds = ts.any Truth.holds := by
  induction ts with
  | nil => rfl
  | cons t ts ih => rw [List.foldr_cons, Truth.holds_or, ih, List.any_cons]

/-- `"col" = $start` says `===`. -/
theorem fragMeans_eqParam {v : JsValue} (hv : v.OfColumn col) (row : DbRow D) (start : ℕ) :
    FragMeans row start ⟨.eqParam col start, [v]⟩ (match row col.name with
        | none => false
        | some d => strictEq v ((col.toJs d).elim .object .prim)) where
  binds pre post hpre := by
    subst hpre
    simpa [SqlText.binds] using Column.accepts_of_ofColumn hv
  holds pre post hpre := by
    subst hpre
    simpa [SqlText.eval] using Column.holds_evalEq hv row
  noConstants := trivial

/-- `"col" IN ($start, …)` says `includes`. -/
theorem fragMeans_inParams {vs : List JsValue} (hvs : ∀ v ∈ vs, v.OfColumn col) (row : DbRow D) (start : ℕ) :
    FragMeans row start ⟨.inParams col (List.range' start vs.length), vs⟩ (match row col.name with
        | none => false
        | some d => vs.any fun v => strictEq v ((col.toJs d).elim .object .prim)) where
  binds pre post hpre := by
    subst hpre
    have hall : (vs.map some).all col.accepts = true := by
      rw [List.all_eq_true]
      intro p hp
      obtain ⟨v, hv, rfl⟩ := List.mem_map.mp hp
      exact Column.accepts_of_ofColumn (hvs v hv)
    rw [← map_getElem?_range' pre vs post, List.all_map] at hall
    exact hall
  holds pre post hpre := by
    subst hpre
    have heval : (List.range' pre.length vs.length).map
        (fun i => col.evalEq row (pre ++ vs ++ post)[i]?) = vs.map fun v => col.evalEq row (some v) := by
      have h := congrArg (List.map (col.evalEq row)) (map_getElem?_range' pre vs post)
      simpa [List.map_map, Function.comp_def] using h
    have hone : vs.map (fun v => (col.evalEq row (some v)).holds) = vs.map fun v =>
        match row col.name with
        | none => false
        | some d => strictEq v ((col.toJs d).elim .object .prim) :=
      List.map_congr_left fun v hv => Column.holds_evalEq (hvs v hv) row
    have hany : (vs.map fun v => col.evalEq row (some v)).any Truth.holds =
        (vs.map fun v => (col.evalEq row (some v)).holds).any id := by
      rw [List.any_map, List.any_map]
      rfl
    simp only [SqlText.eval, heval, holds_foldr_or, hany, hone, List.any_map]
    cases hrow : row col.name with
    | none => simp
    | some d => rfl
  noConstants := trivial

/-- An authored text, instantiated where it is bound, says what it says at its own parameters. -/
theorem fragMeans_authored {frag : WhereFragment D} (hno : ∀ n, Spot.constant n ∉ frag.spots)
    (row : DbRow D) (start : ℕ) :
    FragMeans row start
      ⟨.authored (frag.spots.map (Spot.startingAt start)) frag.meaning, frag.params⟩ (frag.holds row) where
  binds _ _ _ := rfl
  holds pre post hpre := by
    subst hpre
    simp only [SqlText.eval, WhereFragment.holds, List.map_map]
    congr 2
    refine List.map_congr_left fun s hs => ?_
    cases s with
    | placeholder i =>
      have hi := frag.inRange i hs
      simp only [Function.comp_apply, Spot.startingAt, Spot.value]
      rw [List.append_assoc, List.getElem?_append_right (by omega), Nat.add_sub_cancel_left,
        List.getElem?_append_left hi]
    | constant n => exact (hno n hs).elim
  noConstants := by
    intro n hn
    obtain ⟨s, hs, hsn⟩ := List.mem_map.mp hn
    cases s with
    | placeholder i => cases hsn
    | constant m => exact hno m hs

omit [DecidableEq D] in
/-- A `from` rule on a row of the table, by the stored value of its column. -/
theorem matchesRule_jsRow {rule : FromRule} (hcol : table rule.column = some col) (row : DbRow D) :
    matchesRule rule user (jsRow table row) =
      match resolveUserValue rule user, row col.name with
      | .scalar .undefined, _ => false
      | _, none => false
      | .array vs, some d => vs.any fun v => strictEq v ((col.toJs d).elim .object .prim)
      | .scalar v, some d => strictEq v ((col.toJs d).elim .object .prim) := by
  simp only [matchesRule, jsRow, hcol]
  cases hv : resolveUserValue rule user with
  | array vs =>
    cases hrow : row col.name with
    | none => rfl
    | some d => cases hd : col.toJs d <;> simp [hd]
  | scalar v =>
    cases hrow : row col.name with
    | none => cases v <;> rfl
    | some d => cases hd : col.toJs d <;> cases v <;> simp [hd]

theorem ruleToFragment_spec {rule : OwnershipRule D} (hrule : rule.WellTyped user table) (row : DbRow D) (start : ℕ) :
    ∃ frag, ruleToFragment rule user table start = .ok frag ∧
      RuleMeans row start frag (rule.grants user table row) := by
  cases rule with
  | all => exact ⟨_, rfl, ⟨fun _ _ _ => rfl, fun _ _ _ => rfl, trivial⟩⟩
  | whereRule rule =>
    obtain ⟨hq, hno⟩ := hrule
    have hmeans := fragMeans_authored hno row start
    exact ⟨some _, by rw [ruleToFragment, if_pos hq], hmeans⟩
  | fromRule rule =>
    cases hcol : table rule.column with
    | none =>
      refine ⟨none, by simp [ruleToFragment, hcol], ?_⟩
      simp only [RuleMeans, OwnershipRule.grants, matchesRule, jsRow, hcol]
      split <;> rfl
    | some col =>
      have htyped := hrule col hcol
      simp only [OwnershipRule.grants, matchesRule_jsRow hcol]
      cases hv : resolveUserValue rule user with
      | array vs =>
        rw [hv] at htyped
        cases vs with
        | nil =>
          refine ⟨none, by simp [ruleToFragment, hcol, hv], ?_⟩
          cases row col.name <;> rfl
        | cons v vs =>
          have hmeans := fragMeans_inParams htyped row start
          refine ⟨some _, by simp only [ruleToFragment, hcol, hv]; rfl, ?_⟩
          cases hrow : row col.name <;> simpa only [RuleMeans, hrow] using hmeans
      | scalar v =>
        rw [hv] at htyped
        cases v with
        | undefined => exact ⟨none, by simp [ruleToFragment, hcol, hv], rfl⟩
        | null =>
          refine ⟨none, by simp [ruleToFragment, hcol, hv], ?_⟩
          cases hrow : row col.name with
          | none => rfl
          | some d => cases hd : col.toJs d <;> simp [RuleMeans, strictEq, hd]
        | prim p =>
          have hmeans := fragMeans_eqParam (v := .prim p) htyped row start
          refine ⟨some _, by simp only [ruleToFragment, hcol, hv]; rfl, ?_⟩
          cases hrow : row col.name <;> simpa only [RuleMeans, hrow] using hmeans
        | object => exact htyped.elim

/-- One of the user's roles has a rule that says yes. -/
def rolesGrant (user : SessionUser) (accessMap : OwnershipMap D) (table : OwnedTable D) (row : DbRow D)
    (roles : List String) : Bool :=
  roles.any fun role =>
    match accessMap.lookup role with
    | none => false
    | some rule => rule.grants user table row

theorem buildLoop_spec {accessMap : OwnershipMap D}
    {start : ℕ} (roles : List String) {clauses : List (SqlFragment D)} (anyMatched : Bool) {t : Bool}
    (htyped : ∀ role ∈ roles, ∀ rule, accessMap.lookup role = some rule → rule.WellTyped user table)
    (hclauses : SeqMeans row start clauses t) (hany : anyMatched = false → clauses = []) :
    ∃ clause, buildLoop user accessMap table roles clauses anyMatched
        (start + (clauses.flatMap (·.params)).length) = .ok clause ∧
      ClauseMeans row start clause (t || rolesGrant user accessMap table row roles) := by
  induction roles generalizing clauses anyMatched t with
  | nil =>
    simp only [rolesGrant, List.any_nil, Bool.or_false]
    cases clauses with
    | nil =>
      obtain rfl : t = false := hclauses
      cases anyMatched <;> exact ⟨.empty, rfl, rfl⟩
    | cons c cs =>
      cases anyMatched with
      | false => cases hany rfl
      | true => exact ⟨_, rfl, hclauses.joinOr⟩
  | cons role roles ih =>
    have htyped' : ∀ role ∈ roles, ∀ rule, accessMap.lookup role = some rule →
        rule.WellTyped user table := fun role hrole => htyped role (List.mem_cons_of_mem _ hrole)
    cases hlookup : accessMap.lookup role with
    | none =>
      obtain ⟨clause, hbuild, hmeans⟩ := ih anyMatched htyped' hclauses hany
      refine ⟨clause, by simpa [buildLoop, hlookup] using hbuild, ?_⟩
      simpa [rolesGrant, hlookup] using hmeans
    | some rule =>
      have hrule := htyped role List.mem_cons_self rule hlookup
      obtain ⟨frag, hfrag, hmeans⟩ :=
        ruleToFragment_spec hrule row (start + (clauses.flatMap (·.params)).length)
      have hgrant : rolesGrant user accessMap table row (role :: roles) =
          (rule.grants user table row || rolesGrant user accessMap table row roles) := by
        simp [rolesGrant, hlookup]
      by_cases hall : rule = .all
      · subst hall
        refine ⟨.pass, by simp [buildLoop, hlookup], ?_⟩
        simp [ClauseMeans, hgrant, OwnershipRule.grants]
      · have hstep : buildLoop user accessMap table (role :: roles) clauses anyMatched
            (start + (clauses.flatMap (·.params)).length) =
            match frag with
            | none => buildLoop user accessMap table roles clauses true
                (start + (clauses.flatMap (·.params)).length)
            | some resolved => buildLoop user accessMap table roles (clauses ++ [resolved]) true
                (start + (clauses.flatMap (·.params)).length + resolved.params.length) := by
          rw [buildLoop, hlookup]
          cases rule with
          | all => exact (hall rfl).elim
          | fromRule rule => simp only [hfrag]; cases frag <;> rfl
          | whereRule rule => simp only [hfrag]; cases frag <;> rfl
        rw [hstep, hgrant]
        cases frag with
        | none =>
          have hfalse : rule.grants user table row = false := hmeans
          obtain ⟨clause, hbuild, hclause⟩ := ih true htyped' hclauses (by simp)
          exact ⟨clause, hbuild, by simpa [hfalse] using hclause⟩
        | some resolved =>
          obtain ⟨clause, hbuild, hclause⟩ := ih true htyped' (hclauses.append hmeans) (by simp)
          refine ⟨clause, ?_, by simpa [Bool.or_assoc] using hclause⟩
          simpa [Nat.add_assoc] using hbuild

omit [DecidableEq D] in
/-- In memory, and by the authored texts of the user's roles. -/
theorem rolesGrant_eq {accessMap : OwnershipMap D} (hne : accessMap.isEmpty = false) :
    rolesGrant user accessMap table row user.roles =
      (userCanReadFieldRow user accessMap (jsRow table row) || whereGrants user accessMap row) := by
  rw [userCanReadFieldRow, whereGrants, hne, Bool.false_or, rolesGrant]
  induction user.roles with
  | nil => rfl
  | cons role roles ih =>
    rw [List.any_cons, List.any_cons, List.any_cons, ih]
    cases accessMap.lookup role with
    | none => simp
    | some rule => cases rule <;> simp [OwnershipRule.grants, Bool.or_left_comm, Bool.or_assoc]

/-- A row the map grants: in memory, or by an authored text. -/
def granted (user : SessionUser) (accessMap : OwnershipMap D) (table : OwnedTable D) (row : DbRow D) :
    Bool :=
  userCanReadFieldRow user accessMap (jsRow table row) || whereGrants user accessMap row

theorem buildOwnershipClause_spec {accessMap : OwnershipMap D}
    (htyped : WellTyped user accessMap table) (row : DbRow D) (paramStart : ℕ) :
    ∃ clause, buildOwnershipClause user accessMap table paramStart = .ok clause ∧
      ClauseMeans row paramStart clause (granted user accessMap table row) := by
  cases hempty : accessMap.isEmpty with
  | true =>
    refine ⟨.pass, by simp [buildOwnershipClause, hempty], ?_⟩
    simp [ClauseMeans, granted, userCanReadFieldRow, hempty]
  | false =>
    have hstart : SeqMeans row paramStart ([] : List (SqlFragment D)) false := rfl
    obtain ⟨clause, hbuild, hmeans⟩ := buildLoop_spec user.roles false htyped hstart fun _ => rfl
    refine ⟨clause, by simpa [buildOwnershipClause, hempty] using hbuild, ?_⟩
    rw [Bool.false_or, rolesGrant_eq hempty] at hmeans
    exact hmeans

/-! ## The claim -/

/-- **SQL selects what memory accepts, and what a `where` rule of the user's roles selects.** For every
user, every two maps and every row: a clause built to be bound behind `pre`, and two clauses combined and
shifted behind `pre`, whatever else the statement binds. -/
theorem ownership_agrees (user : SessionUser) (a b : OwnershipMap D) (table : OwnedTable D) (row : DbRow D)
    (pre post : List JsValue) (ha : WellTyped user a table) (hb : WellTyped user b table) :
    (∃ clause, buildOwnershipClause user a table pre.length = .ok clause ∧
      (selects pre post clause row = true ↔
        userCanReadFieldRow user a (jsRow table row) = true ∨ whereGrants user a row = true)) ∧
    ∃ ca cb, buildOwnershipClause user a table 0 = .ok ca ∧ buildOwnershipClause user b table 0 = .ok cb ∧
      (selects pre post ((combineClauses ca cb).shifted pre.length) row = true ↔
        (userCanReadFieldRow user a (jsRow table row) = true ∨ whereGrants user a row = true) ∧
        (userCanReadFieldRow user b (jsRow table row) = true ∨ whereGrants user b row = true)) := by
  constructor
  · obtain ⟨clause, hbuild, hmeans⟩ := buildOwnershipClause_spec ha row pre.length
    refine ⟨clause, hbuild, ?_⟩
    rw [hmeans.selects rfl post, granted, Bool.or_eq_true]
  · obtain ⟨ca, hca, hma⟩ := buildOwnershipClause_spec ha row 0
    obtain ⟨cb, hcb, hmb⟩ := buildOwnershipClause_spec hb row 0
    refine ⟨ca, cb, hca, hcb, ?_⟩
    rw [((hma.combine hmb).shifted pre.length).selects rfl post, Bool.and_eq_true, granted, granted,
      Bool.or_eq_true, Bool.or_eq_true]

end

/-! ## Where the two differ -/

/-- The number a string of decimal digits continues. -/
def readDigits : List Char → ℕ → Option ℕ
  | [], n => some n
  | c :: cs, n => if c.isDigit then readDigits cs (10 * n + (c.toNat - '0'.toNat)) else none

/-- The text form of an integer, as Postgres reads it. -/
def readInteger (s : String) : Option ℤ :=
  match s.toList with
  | [] => none
  | ['-'] => none
  | '-' :: cs => (readDigits cs 0).map fun n => -(n : ℤ)
  | cs => (readDigits cs 0).map fun n => (n : ℤ)

/-- An integer column: the driver returns numbers, and Postgres also reads the digits of a string. -/
def integerColumn (name : String) : Column ℤ where
  name := name
  toJs n := some (.number n)
  ofParam
    | .prim (.number q) => if q.den = 1 then some q.num else none
    | .prim (.string s) => readInteger s
    | _ => none
  ofParam_toJs := by
    intro d p hp
    obtain rfl : Prim.number d = p := Option.some.inj hp
    simp

/-- A table with one column. -/
def teamTable : OwnedTable ℤ := fun field => if field = "teamId" then some (integerColumn "team_id") else none

def teamRow : DbRow ℤ := fun name => if name = "team_id" then some 5 else none

/-- A member with one claim. -/
def member (teamId : ClaimValue) : SessionUser where
  id := "u1"
  tenantId := "t1"
  roles := ["Member"]
  claims name := if name = "drivers:teamId" then teamId else .scalar .undefined

def memberMap (rule : OwnershipRule ℤ) : OwnershipMap ℤ := [("Member", rule)]

/-- The row's team is the member's, or one of the member's. -/
def teamRule : FromRule := ⟨.claim "drivers:teamId", "teamId"⟩

/-- `TRUE` -/
def everyRow : WhereFragment ℤ where
  spots := []
  params := []
  qualified := true
  meaning _ _ := some true
  inRange := by simp

/-- `'$1' = '$' || 1`: digits behind a dollar sign in a string constant. -/
def dollarConstant : WhereFragment ℤ where
  spots := [.constant 1]
  params := []
  qualified := true
  meaning values _ := some (values == [.digits 1])
  inRange := by simp

theorem wellTyped_memberMap {rule : OwnershipRule ℤ}
    (h : rule.WellTyped user teamTable) : WellTyped user (memberMap rule) teamTable := by
  intro role _ rule' hlookup
  cases hrole : role == "Member" with
  | true =>
    obtain rfl : rule = rule' := by simpa [memberMap, List.lookup_cons, hrole] using hlookup
    exact h
  | false => simp [memberMap, List.lookup_cons, hrole] at hlookup

/-- A member of two teams, one rule from the claim and one authored rule with a parameter, behind a bound
tenant id. -/
theorem ownership_agrees_teams :
    ∃ ca cb, buildOwnershipClause (member (.array [.prim (.number 4), .prim (.number 5)]))
        (memberMap (.fromRule teamRule)) teamTable 0 = .ok ca ∧
      buildOwnershipClause (member (.array [.prim (.number 4), .prim (.number 5)]))
        (memberMap (.whereRule fun _ => everyRow)) teamTable 0 = .ok cb ∧
      selects [.prim (.string "t1")] [] ((combineClauses ca cb).shifted 1) teamRow = true := by
  have hfrom : OwnershipRule.WellTyped (member (.array [.prim (.number 4), .prim (.number 5)])) teamTable
      (.fromRule teamRule) := by
    intro col hcol v hv
    obtain rfl : integerColumn "team_id" = col := Option.some.inj hcol
    rcases List.mem_pair.mp hv with rfl | rfl
    · exact ⟨4, rfl⟩
    · exact ⟨5, rfl⟩
  have hwhere : OwnershipRule.WellTyped (member (.array [.prim (.number 4), .prim (.number 5)])) teamTable
      (.whereRule fun _ => everyRow) := ⟨rfl, fun _ => List.not_mem_nil⟩
  obtain ⟨-, ca, cb, hca, hcb, hiff⟩ := ownership_agrees _ _ _ teamTable teamRow [.prim (.string "t1")] []
    (wellTyped_memberMap hfrom) (wellTyped_memberMap hwhere)
  exact ⟨ca, cb, hca, hcb, hiff.mpr ⟨.inl (by decide), .inr (by decide)⟩⟩

/-- A `where` rule grants nothing in memory; a string claim equals no number there while Postgres reads it at
the column's type; and shifting rewrites a `$1` in a string constant of an authored text. -/
theorem not_ownership_agrees :
    (¬ ∀ (user : SessionUser) (accessMap : OwnershipMap ℤ) (table : OwnedTable ℤ) (row : DbRow ℤ)
        (clause : OwnershipClause ℤ), buildOwnershipClause user accessMap table 0 = .ok clause →
        (selects [] [] clause row = true ↔ userCanReadFieldRow user accessMap (jsRow table row) = true)) ∧
    (¬ ∀ (user : SessionUser) (rule : FromRule) (table : OwnedTable ℤ) (row : DbRow ℤ)
        (clause : OwnershipClause ℤ),
        buildOwnershipClause user (memberMap (.fromRule rule)) table 0 = .ok clause →
        (selects [] [] clause row = true ↔
          userCanReadFieldRow user (memberMap (.fromRule rule)) (jsRow table row) = true)) ∧
    ¬ ∀ (user : SessionUser) (frag : WhereFragment ℤ) (table : OwnedTable ℤ) (row : DbRow ℤ)
        (clause : OwnershipClause ℤ),
        buildOwnershipClause user (memberMap (.whereRule fun _ => frag)) table 0 = .ok clause →
        (selects [.null] [] (clause.shifted 1) row = true ↔ frag.holds row = true) := by
  refine ⟨?_, ?_, ?_⟩
  · intro h
    have hiff := h (member (.scalar .null)) (memberMap (.whereRule fun _ => everyRow)) teamTable teamRow _ rfl
    exact absurd (hiff.mp (by decide)) (by decide)
  · intro h
    have hiff := h (member (.scalar (.prim (.string "5")))) teamRule teamTable teamRow _ rfl
    exact absurd (hiff.mp (by decide)) (by decide)
  · intro h
    have hiff := h (member (.scalar .null)) dollarConstant teamTable teamRow _ rfl
    exact absurd (hiff.mpr (by decide)) (by decide)

end Kumiko
