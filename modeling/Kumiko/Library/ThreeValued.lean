import Mathlib.Data.Option.Basic

/-!
# The three-valued logic of SQL conditions

A comparison with a missing operand is neither true nor false, and a `WHERE` keeps a row only where its
condition is *true*. So a condition is an `Option Bool`, `none` being SQL's unknown, and what a proof needs
of a connective is when a row with it is kept: the `holds_` lemmas take `holds` through a condition, one
connective at a time, down to the values it reads.
-/

namespace Kumiko

/-- A truth value of SQL: `none` is *unknown*. -/
abbrev Truth := Option Bool

namespace Truth

/-- `a AND b`: false as soon as one side is. -/
def and : Truth → Truth → Truth
  | some false, _ => some false
  | _, some false => some false
  | some true, some true => some true
  | _, _ => none

/-- `a OR b`: true as soon as one side is. -/
def or : Truth → Truth → Truth
  | some true, _ => some true
  | _, some true => some true
  | some false, some false => some false
  | _, _ => none

/-- `NOT a`, unknown where `a` is. -/
def not : Truth → Truth := Option.map (!·)

/-- `a₁ OR … OR aₙ`. -/
def any : List Truth → Truth := List.foldr or (some false)

/-- `x IS NULL`, never unknown. -/
def isNull {V : Type*} (x : Option V) : Truth := some x.isNone

/-- `x IS NOT NULL`, never unknown. -/
def isNotNull {V : Type*} (x : Option V) : Truth := some x.isSome

/-- A comparison operator: unknown as soon as one operand is `NULL`. -/
def compare {V : Type*} (op : V → V → Bool) : Option V → Option V → Truth
  | some x, some y => some (op x y)
  | _, _ => none

/-- Whether a `WHERE` with this condition keeps the row. -/
def holds (t : Truth) : Bool := t == some true

@[simp] theorem holds_unknown : holds none = false := rfl

@[simp] theorem holds_some (b : Bool) : holds (some b) = b := by
  cases b <;> rfl

@[simp] theorem holds_and (a b : Truth) : (a.and b).holds = (a.holds && b.holds) := by
  rcases a with _ | (_ | _) <;> rcases b with _ | (_ | _) <;> rfl

@[simp] theorem holds_or (a b : Truth) : (a.or b).holds = (a.holds || b.holds) := by
  rcases a with _ | (_ | _) <;> rcases b with _ | (_ | _) <;> rfl

@[simp] theorem holds_not_some (b : Bool) : (not (some b)).holds = !b :=
  holds_some _

@[simp] theorem holds_any (as : List Truth) : (any as).holds = List.any as holds := by
  induction as with
  | nil => rfl
  | cons a as ih => exact (holds_or a (any as)).trans (congrArg (a.holds || ·) ih)

@[simp] theorem holds_isNull {V : Type*} (x : Option V) : (isNull x).holds = x.isNone :=
  holds_some _

@[simp] theorem holds_isNotNull {V : Type*} (x : Option V) : (isNotNull x).holds = x.isSome :=
  holds_some _

@[simp] theorem holds_compare_some {V : Type*} (op : V → V → Bool) (x y : V) :
    (compare op (some x) (some y)).holds = op x y :=
  holds_some _

@[simp] theorem holds_compare_null {V : Type*} (op : V → V → Bool) (y : Option V) :
    (compare op none y).holds = false := rfl

@[simp] theorem holds_compare_null_right {V : Type*} (op : V → V → Bool) (x : Option V) :
    (compare op x none).holds = false := by
  cases x <;> rfl

end Truth

end Kumiko
