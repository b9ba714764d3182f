import Mathlib.Data.Rat.Defs

/-!
# The match of an awaited event

`engine/steps/_event-match.ts`. A `waitForEvent` step may carry a condition on the payload of the event that it waits
for, a tree that is stored with the suspension and evaluated when an event comes. The tree comes back from the
database: where it is malformed or of another version the evaluation throws, and the row is left alone
(`matchExprPasses`).
-/

namespace Kumiko

/-- A payload. -/
inductive EventPayload where
  | null
  | bool (b : Bool)
  | number (value : ℚ)
  | text (s : String)
  | array (items : List EventPayload)
  | object (fields : List (String × EventPayload))

inductive EventMatchValue where
  | text (s : String)
  | number (value : ℚ)
  | bool (b : Bool)
  | null

inductive OrderedOp where
  | gt
  | gte
  | lt
  | lte

/-- An operator; `unknown` is one that the evaluation does not understand. -/
inductive EventMatchOp where
  | eq (value : EventMatchValue)
  | ne (value : EventMatchValue)
  | oneOf (values : List EventMatchValue)
  | ordered (kind : OrderedOp) (value : EventMatchValue)
  | unknown

inductive EventMatchExpr where
  | and (nodes : List EventMatchExpr)
  | or (nodes : List EventMatchExpr)
  | atom (path : List String) (op : EventMatchOp)
  | unknown

structure EventMatch where
  version : ℕ
  expr : EventMatchExpr

/-- An own property of a value. -/
def EventPayload.own (segment : String) : EventPayload → Option EventPayload
  | .object fields => (fields.find? (·.1 = segment)).map (·.2)
  | .array items =>
    if segment = "length" then some (.number items.length)
    else ((List.range items.length).find? (toString · = segment)).bind (items[·]?)
  | _ => none

/-- Reference: `resolvePath`. -/
def resolvePath (payload : EventPayload) (path : List String) : Option EventPayload :=
  path.foldlM (fun current segment => current.own segment) payload

/-- The code units by which strings are compared. -/
def utf16Units (s : String) : List ℕ :=
  s.toList.flatMap fun c =>
    if c.toNat < 65536 then [c.toNat]
    else [55296 + (c.toNat - 65536) / 1024, 56320 + (c.toNat - 65536) % 1024]

def OrderedOp.holds {α : Type} [LT α] [DecidableLT α] (actual expected : α) : OrderedOp → Bool
  | gt => expected < actual
  | gte => ¬actual < expected
  | lt => actual < expected
  | lte => ¬expected < actual

/-- Values of two kinds are not in order. -/
def compareOrdered (kind : OrderedOp) : EventPayload → EventMatchValue → Bool
  | .number actual, .number expected => kind.holds actual expected
  | .text actual, .text expected => kind.holds (utf16Units actual) (utf16Units expected)
  | _, _ => false

/-- Reference: `===`, of a value that may be missing. -/
def strictlyEqual : Option EventPayload → EventMatchValue → Bool
  | some (.text s), .text s' => s = s'
  | some (.number value), .number value' => value = value'
  | some (.bool b), .bool b' => b = b'
  | some .null, .null => true
  | _, _ => false

/-- Reference: `evaluateOp`; none is a throw. -/
def evaluateOp (op : EventMatchOp) (actual : Option EventPayload) : Option Bool :=
  match op with
  | .eq value => some (strictlyEqual actual value)
  | .ne value => some (!strictlyEqual actual value)
  | .oneOf values => some (values.any (strictlyEqual actual))
  | .ordered kind value => some (actual.any (compareOrdered kind · value))
  | .unknown => none

/-- The operator is evaluated before the path is looked at. -/
def evaluateExprAtom (op : EventMatchOp) (resolved : Option EventPayload) : Option Bool :=
  (evaluateOp op resolved).map (resolved.isSome && ·)

mutual

/-- Reference: `evaluateExpr`. -/
def evaluateExpr (payload : EventPayload) : EventMatchExpr → Option Bool
  | .and nodes => evaluateEvery payload nodes
  | .or nodes => evaluateSome payload nodes
  | .atom path op => evaluateExprAtom op (resolvePath payload path)
  | .unknown => none

def evaluateEvery (payload : EventPayload) : List EventMatchExpr → Option Bool
  | [] => some true
  | node :: nodes => (evaluateExpr payload node).bind fun b => if b then evaluateEvery payload nodes else some false

def evaluateSome (payload : EventPayload) : List EventMatchExpr → Option Bool
  | [] => some false
  | node :: nodes => (evaluateExpr payload node).bind fun b => if b then some true else evaluateSome payload nodes

end

def evaluateEventMatch (m : EventMatch) (payload : EventPayload) : Option Bool :=
  if m.version = 1 then evaluateExpr payload m.expr else none

/-- A row without a condition matches; one whose condition throws does not. Reference: `rowMatchesEvent`. -/
def matchExprPasses (matchExpr : Option EventMatch) (payload : EventPayload) : Bool :=
  match matchExpr with
  | none => true
  | some m => (evaluateEventMatch m payload).getD false

end Kumiko
