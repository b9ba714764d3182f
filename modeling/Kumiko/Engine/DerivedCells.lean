import Mathlib.Data.Rat.Floor
import Mathlib.Data.Sign.Basic
import Kumiko.Engine.FieldValues

/-!
# Derived cells of an embedded-list row

`engine/embedded-derived.ts`: the server overwrites a derived cell with what other cells give. Where every cell
comes behind the derived cells it reads (`SourcesFirst`) and no condition reads one (`WhenReadsStored`), rows
that differ only in derived cells become the same row (`withDerivedCells_congr`); a condition that does read one
breaks this (`not_derivedCellsServers`).
-/

namespace Kumiko

/-! ## Declarations -/

/-- Reference: `FieldCondition` without the booleans. What it compares with is no value of the row: an object there
equals none. -/
inductive FieldCondition where
  | eq (field : String) (value : JsValue)
  | ne (field : String) (value : JsValue)
  | isIn (field : String) (values : List JsValue)
  | notIn (field : String) (values : List JsValue)

/-- Reference: `cond.field`. -/
def FieldCondition.field : FieldCondition → String
  | .eq field _ | .ne field _ | .isIn field _ | .notIn field _ => field

/-- Reference: `NumericDerivedOp`. -/
inductive NumericDerivedOp where
  | multiply
  | sum
  | subtract
  | percent

/-- Reference: `EmbeddedDerivedCellDef["op"]`, with the options of `inRange`. -/
inductive DerivedCellOp where
  | numeric (op : NumericDerivedOp)
  | inRange (inside outside : String)

/-- Reference: `EmbeddedDerivedCellDef`; `sources` is `from`. -/
structure EmbeddedDerivedCellDef where
  op : DerivedCellOp
  sources : List String
  when : Option FieldCondition := none

/-- Reference: `EmbeddedSubFieldDef["type"]`. -/
inductive SubFieldType where
  | text
  | number
  | boolean
  | date
  | money
  | timestamp
  | decimal
  | select
  | reference
  | images
  | files

/-- Reference: `DerivedCellRoundingTarget`. -/
structure DerivedCellRoundingTarget where
  type : SubFieldType
  scale : Option ℤ := none

/-- The cells of a row; a cell that is missing is `none`. -/
abbrev CellRow := String → Option JsonValue

/-- What a list holds where a row is expected. Reference: `isPlainObject`. -/
inductive RowInput where
  | object (row : CellRow)
  | other (value : JsonValue)

/-! ## Deriving -/

/-- Reference: `evalFieldCondition`. -/
def evalFieldCondition (cond : FieldCondition) (values : CellRow) : Bool :=
  let val := ((values cond.field).getD .undefined).toJs
  match cond with
  | .eq _ value => strictEq val value
  | .isIn _ among => among.any (strictEq val)
  | .notIn _ among => !among.any (strictEq val)
  | .ne _ value => !strictEq val value

/-- Reference: `computeDerivedCellValue`. -/
def computeDerivedCellValue (op : NumericDerivedOp) (values : List (Option ℚ)) : Option ℚ :=
  match op with
  | .multiply => values.foldlM (fun product value => value.map (product * ·)) 1
  | .percent =>
    match values with
    | [some base, some rate] => some (base * rate / 100)
    | _ => none
  | .sum =>
    if values.all (·.isNone) then none
    else some ((values.map (·.getD 0)).foldl (· + ·) 0)
  | .subtract =>
    if values.all (·.isNone) then none
    else
      match values.map (·.getD 0) with
      | [] => some 0
      | first :: rest => some (rest.foldl (· - ·) first)

/-- In exact arithmetic `toPrecision` has no noise to strip. Reference: `roundHalfAwayFromZero`. -/
def roundHalfAwayFromZero (value : ℚ) (decimals : ℤ) : ℚ :=
  let factor : ℚ := 10 ^ decimals
  let scaled := |value| * factor
  SignType.sign value * ⌊scaled + 1 / 2⌋ / factor

/-- Reference: `roundDerivedCellValue`. -/
def roundDerivedCellValue (value : ℚ) (target : DerivedCellRoundingTarget) : ℚ :=
  match target.type with
  | .money => roundHalfAwayFromZero value 0
  | .decimal =>
    match target.scale with
    | none => value
    | some scale => roundHalfAwayFromZero value scale
  | _ => value

/-- Reference: `computeInRangeCell`. -/
def computeInRangeCell (values : List (Option ℚ)) (inside outside : String) : Option String :=
  let min := values.getD 1 none
  let max := values.getD 2 none
  match values.getD 0 none with
  | none => none
  | some value =>
    if min = none ∧ max = none then none
    else if min.all (· ≤ value) ∧ max.all (value ≤ ·) then some inside
    else some outside

/-- What the source cell counts as: a number, or nothing. -/
def numberOf : Option JsonValue → Option ℚ
  | some (.prim (.number n)) => some n
  | _ => none

/-- What the cell becomes on the working copy: `none` clears it. -/
def derivedCellOf (targets : String → Option DerivedCellRoundingTarget) (copy : CellRow) (name : String)
    (cell : EmbeddedDerivedCellDef) : Option JsonValue :=
  let sourceValues := cell.sources.map fun source => numberOf (copy source)
  match cell.op with
  | .inRange inside outside => (computeInRangeCell sourceValues inside outside).map fun s => .prim (.string s)
  | .numeric op =>
    (computeDerivedCellValue op sourceValues).map fun computed =>
      match targets name with
      | none => .prim (.number computed)
      | some target => .prim (.number (roundDerivedCellValue computed target))

/-- Whether the cell is derived on the row. -/
def EmbeddedDerivedCellDef.applies (cell : EmbeddedDerivedCellDef) (row : CellRow) : Bool :=
  match cell.when with
  | none => true
  | some cond => evalFieldCondition cond row

/-- One turn of the loop of `withDerivedCells`. -/
def deriveCell (targets : String → Option DerivedCellRoundingTarget) (row copy : CellRow)
    (entry : String × EmbeddedDerivedCellDef) : CellRow :=
  if entry.2.applies row then Function.update copy entry.1 (derivedCellOf targets copy entry.1 entry.2)
  else copy

/-- The declarations are in the order of `Object.entries`. Reference: `withDerivedCells`. -/
def withDerivedCells (derived : List (String × EmbeddedDerivedCellDef))
    (targets : String → Option DerivedCellRoundingTarget) : RowInput → RowInput
  | .other value => .other value
  | .object row => .object (derived.foldl (deriveCell targets row) row)

/-! ## What is asked of a declaration -/

/-- Every cell comes behind the derived cells it reads. -/
def SourcesFirst : List (String × EmbeddedDerivedCellDef) → Prop
  | [] => True
  | entry :: rest =>
    (∀ source ∈ entry.2.sources, source ∉ (entry :: rest).map Prod.fst) ∧ SourcesFirst rest

/-- No condition reads a derived cell. Reference: the rule `derivedWhenReadsDerived` of `assertDerivedCells`. -/
def WhenReadsStored (derived : List (String × EmbeddedDerivedCellDef)) : Prop :=
  ∀ entry ∈ derived, ∀ cond ∈ entry.2.when, cond.field ∉ derived.map Prod.fst

/-- The cell is derived on the row. -/
def DerivedOn (derived : List (String × EmbeddedDerivedCellDef)) (row : CellRow) (name : String) : Prop :=
  ∃ entry ∈ derived, entry.1 = name ∧ entry.2.applies row = true

/-- Derived cells are the server's: deriving again changes nothing, a cell that is not derived on the row keeps what
was sent, and what was sent for cells derived on both rows makes no difference. -/
structure DerivedCellsServers (derived : List (String × EmbeddedDerivedCellDef))
    (targets : String → Option DerivedCellRoundingTarget) : Prop where
  idempotent : ∀ input, withDerivedCells derived targets (withDerivedCells derived targets input) =
    withDerivedCells derived targets input
  other : ∀ value, withDerivedCells derived targets (.other value) = .other value
  unchanged : ∀ row, ∃ row', withDerivedCells derived targets (.object row) = .object row' ∧
    ∀ name, ¬DerivedOn derived row name → row' name = row name
  independent : ∀ row row' : CellRow,
    (∀ name, row name ≠ row' name → DerivedOn derived row name ∧ DerivedOn derived row' name) →
      withDerivedCells derived targets (.object row) = withDerivedCells derived targets (.object row')

section
variable {derived : List (String × EmbeddedDerivedCellDef)} {targets : String → Option DerivedCellRoundingTarget}
  {row row' copy copy' : CellRow} {name : String} {entry : String × EmbeddedDerivedCellDef}

theorem deriveCell_of_applies (h : entry.2.applies row = true) : deriveCell targets row copy entry =
    Function.update copy entry.1 (derivedCellOf targets copy entry.1 entry.2) := if_pos h

theorem deriveCell_of_not_applies (h : entry.2.applies row = false) : deriveCell targets row copy entry = copy :=
  if_neg (by simp [h])

/-- A derived value depends on the sources only. -/
theorem derivedCellOf_congr {cell : EmbeddedDerivedCellDef} (h : ∀ source ∈ cell.sources, copy source = copy' source) :
    derivedCellOf targets copy name cell = derivedCellOf targets copy' name cell := by
  have hsources : (cell.sources.map fun source => numberOf (copy source)) =
      cell.sources.map fun source => numberOf (copy' source) :=
    List.map_congr_left fun source hs => by rw [h source hs]
  simp only [derivedCellOf, hsources]

/-- A condition depends on its field only. -/
theorem applies_congr {cell : EmbeddedDerivedCellDef}
    (h : ∀ cond ∈ cell.when, row cond.field = row' cond.field) : cell.applies row = cell.applies row' := by
  unfold EmbeddedDerivedCellDef.applies
  cases hw : cell.when with
  | none => rfl
  | some cond =>
    simp only [evalFieldCondition]
    rw [h cond hw]

theorem foldl_deriveCell_of_not_derivedOn (h : ¬DerivedOn derived row name) :
    derived.foldl (deriveCell targets row) copy name = copy name := by
  induction derived generalizing copy with
  | nil => rfl
  | cons entry derived ih =>
    rw [List.foldl_cons, ih fun ⟨e, he, h₁, h₂⟩ => h ⟨e, .tail _ he, h₁, h₂⟩]
    cases ha : entry.2.applies row with
    | false => rw [deriveCell_of_not_applies ha]
    | true =>
      rw [deriveCell_of_applies ha]
      exact Function.update_of_ne (fun heq => h ⟨entry, .head _, heq.symm, ha⟩) _ _

/-- The working copies of two rows on which the same cells are derived: what they differ in is still to be derived.
The induction is on the declarations that are left. -/
theorem foldl_deriveCell_congr (hs : SourcesFirst derived)
    (happlies : ∀ entry ∈ derived, entry.2.applies row = entry.2.applies row')
    (h : ∀ name, copy name ≠ copy' name → DerivedOn derived row name) :
    derived.foldl (deriveCell targets row) copy = derived.foldl (deriveCell targets row') copy' := by
  induction derived generalizing copy copy' with
  | nil =>
    funext name
    by_contra hne
    obtain ⟨entry, he, -⟩ := h name hne
    cases he
  | cons entry derived ih =>
    obtain ⟨hsource, hs⟩ := hs
    rw [List.foldl_cons, List.foldl_cons]
    refine ih hs (fun e he => happlies e (.tail _ he)) fun name hne => ?_
    have hagree : ∀ source ∈ entry.2.sources, copy source = copy' source := by
      intro source hmem
      by_contra hne
      obtain ⟨e, he, rfl, -⟩ := h source hne
      exact hsource e.1 hmem (List.mem_map_of_mem he)
    have hentry := happlies entry (.head _)
    cases ha : entry.2.applies row with
    | true =>
      rw [deriveCell_of_applies ha, deriveCell_of_applies (hentry ▸ ha), derivedCellOf_congr hagree] at hne
      by_cases heq : name = entry.1
      · subst heq
        simp at hne
      · rw [Function.update_of_ne heq, Function.update_of_ne heq] at hne
        obtain ⟨e, he, rfl, happ⟩ := h name hne
        cases he with
        | head => exact absurd rfl heq
        | tail _ he => exact ⟨e, he, rfl, happ⟩
    | false =>
      rw [deriveCell_of_not_applies ha, deriveCell_of_not_applies (hentry ▸ ha)] at hne
      obtain ⟨e, he, rfl, happ⟩ := h name hne
      cases he with
      | head => rw [ha] at happ; cases happ
      | tail _ he => exact ⟨e, he, rfl, happ⟩

/-- Rows that differ only in cells derived on the first become the same row. -/
theorem withDerivedCells_congr (hs : SourcesFirst derived) (hw : WhenReadsStored derived)
    (h : ∀ name, row name ≠ row' name → DerivedOn derived row name) :
    withDerivedCells derived targets (.object row) = withDerivedCells derived targets (.object row') := by
  refine congrArg RowInput.object (foldl_deriveCell_congr hs (fun entry he => applies_congr fun cond hc => ?_) h)
  by_contra hne
  obtain ⟨e, hmem, hname, -⟩ := h _ hne
  exact hw entry he cond hc (hname ▸ List.mem_map_of_mem hmem)

end

/-- With the sources of a cell before it and no condition on a derived cell, derived cells are the server's. -/
theorem derivedCells_servers (derived : List (String × EmbeddedDerivedCellDef))
    (targets : String → Option DerivedCellRoundingTarget) (hs : SourcesFirst derived)
    (hw : WhenReadsStored derived) : DerivedCellsServers derived targets where
  idempotent := by
    rintro (row | value)
    · refine (withDerivedCells_congr hs hw fun name hne => ?_).symm
      by_contra hnot
      exact hne (foldl_deriveCell_of_not_derivedOn hnot).symm
    · rfl
  other _ := rfl
  unchanged row := ⟨_, rfl, fun _ hnot => foldl_deriveCell_of_not_derivedOn hnot⟩
  independent _ _ h := withDerivedCells_congr hs hw fun name hne => (h name hne).1

/-! ## A position of an invoice -/

/-- A tax cell, and a gross cell that reads it where the position is calculated. -/
def positionCells : List (String × EmbeddedDerivedCellDef) :=
  [("tax", ⟨.numeric .percent, ["net", "rate"], none⟩),
    ("gross", ⟨.numeric .sum, ["net", "tax"], some (.eq "kind" (.prim (.string "calc")))⟩)]

def positionTargets (_ : String) : Option DerivedCellRoundingTarget := some { type := .money }

/-- No condition of the position reads its tax or its gross amount. -/
theorem derivedCells_servers_position : DerivedCellsServers positionCells positionTargets :=
  derivedCells_servers positionCells positionTargets (by simp [positionCells, SourcesFirst])
    (by simp [positionCells, WhenReadsStored, FieldCondition.field])

/-- The second cell is derived where the first one is 1. -/
def guardedCells : List (String × EmbeddedDerivedCellDef) :=
  [("first", ⟨.numeric .sum, ["x"], none⟩),
    ("second", ⟨.numeric .sum, ["x"], some (.eq "first" (.prim (.number 1)))⟩)]

def guardedRow : CellRow
  | "x" => some (.prim (.number 1))
  | "first" => some (.prim (.number 7))
  | "second" => some (.prim (.number 9))
  | _ => none

/-- With a condition on a derived cell the first pass sees what the client sent and the second what was derived. -/
theorem not_derivedCellsServers : ¬∀ derived targets, SourcesFirst derived → DerivedCellsServers derived targets := by
  intro h
  have hs : SourcesFirst guardedCells := by simp [guardedCells, SourcesFirst]
  have hidem := (h guardedCells (fun _ => none) hs).idempotent (.object guardedRow)
  have hsecond := congrArg numberOf (congrFun (RowInput.object.inj hidem) "second")
  exact absurd hsecond (by decide +kernel)

end Kumiko
