import Kumiko.Db.PreviousRow

/-!
# The guard of declared transitions

`pipeline/write-transition-guard.ts` around the executor's verbs, for one field of one aggregate. The guard
reads the row with a lock and judges the step from the stored value to the payload's. It skips a payload without
an id or a value, and a hook may write another value than the payload's. Where every update writes a value that
was compared with the row as it stands, the values are a path of the graph (`transitions_of_run`).

A command that fails is rolled back to its savepoint. Other fields' guards only refuse more.
-/

namespace Kumiko

open Transition History

variable {J : Type*} {n : ℕ} {calls : List (OpenVerb J)}

/-! ## Transitions and commands -/

/-- A field with declared transitions, none of the columns that the verbs set by themselves. -/
structure TransitionField where
  name : String
  transitions : List (JsText × List JsText)
  declared : name ∉ ["version", "modifiedAt", "modifiedById", "isDeleted", "deletedAt", "deletedById"]

namespace TransitionField

variable (tf : TransitionField)

/-- Reference: `canTransition` of `defineTransitions`. -/
def canTransition (current next : JsText) : Bool := (tf.transitions.lookup current).any (next ∈ ·)

/-- An unchanged value is no transition. Reference: `guardFieldTransition`. -/
def allows (current : FieldValue J) (next : JsText) : Bool :=
  match current with
  | .text value => value = next || tf.canTransition value next
  | _ => false

/-- The value of the field, where there is a row. -/
def valueOf (row : Option (EntityRow J)) : Option (FieldValue J) := row.map (·.value tf.name)

/-- A step along the graph: the row is created or gone, or its value stays or moves as declared. -/
def Moves (before after : Option (FieldValue J)) : Prop :=
  before = none ∨ after = none ∨ before = after ∨
    ∃ current next, before = some (.text current) ∧ after = some (.text next) ∧ tf.canTransition current next = true

end TransitionField

/-- A dispatched write: the option of its handler, and the payload after parsing. -/
structure WriteCommand (J : Type*) where
  unsafeSkipTransitionGuard : Bool
  id : Option String
  fields : EntityRow J
  changes : Option (EntityRow J)

/-- The value that the guard judges, if it judges the aggregate. Whether it throws on what is no string is left
open. Reference: `guardAutoTransitions` and `guardFieldTransition`. -/
def WriteCommand.guardedValue (cmd : WriteCommand J) (aggregateId field : String) : Option JsText :=
  if cmd.unsafeSkipTransitionGuard || cmd.id ≠ some aggregateId then none
  else
    match (cmd.changes.getD cmd.fields).value field with
    | .text value => if value = .of "" then none else some value
    | _ => none

/-- The verb is about to write the row. -/
def VerbPhase.projects : VerbPhase J → Bool
  | .project _ => true
  | _ => false

/-! ## Clients -/

/-- What a transaction knows of the field: the values that the guard has let through for the row as it stands,
and a record of the values that its own writes have given the field. -/
structure FieldGuard (J : Type*) where
  passed : List JsText
  written : List (Option (FieldValue J))

def FieldGuard.empty : FieldGuard J := ⟨[], []⟩

/-- A savepoint, of a command or of a verb, with what the transaction had written and knew before it. -/
structure GuardFrame (J : Type*) where
  command : Option (WriteCommand J)
  written : VerbTx J
  guard : FieldGuard J

/-- A client's part, the innermost savepoint first. -/
structure GuardedClient (J : Type*) where
  guard : FieldGuard J
  frames : List (GuardFrame J)

/-- The aggregate, with a record of the values its field has had. -/
structure GuardedTable (J : Type*) (n : ℕ) where
  table : AggregateTable J n
  values : List (Option (FieldValue J))
  guards : Fin n → GuardedClient J

inductive GuardedAct (J : Type*) (n : ℕ) where
  | begin (k : Fin n)
  | commit (k : Fin n)
  | rollback (k : Fin n)
  | dispatch (k : Fin n) (cmd : WriteCommand J)
  | settle (k : Fin n)
  | fail (k : Fin n)
  | call (k : Fin n) (c : VerbCall J)
  | run (k : Fin n) (now : ℕ)
  | error (k : Fin n)
  | archive (tenantId : String)
  | unarchive (tenantId : String)

namespace GuardedTable

def initial : GuardedTable J n := ⟨.initial, [none], fun _ => ⟨.empty, []⟩⟩

def setGuard (s : GuardedTable J n) (k : Fin n) (g : GuardedClient J) : GuardedTable J n :=
  { s with guards := Function.update s.guards k g }

/-- Another transaction has locked the row for its guard. -/
def LockedElsewhere (s : GuardedTable J n) (k : Fin n) : Prop :=
  ∃ j, j ≠ k ∧ ((s.guards j).guard.passed ≠ [] ∨ ∃ frame ∈ (s.guards j).frames, frame.guard.passed ≠ [])

instance (s : GuardedTable J n) (k : Fin n) : Decidable (s.LockedElsewhere k) :=
  inferInstanceAs (Decidable (∃ j, j ≠ k ∧ (_ ∨ ∃ frame ∈ (s.guards j).frames, frame.guard.passed ≠ [])))

end GuardedTable

namespace EntityVerbs

variable (ev : EntityVerbs J) (tf : TransitionField)

/-- The guard, and then the savepoint in which the handler runs. Reference: `executeWriteInner`. -/
def dispatch (s : GuardedTable J n) (k : Fin n) (cmd : WriteCommand J) : Option (GuardedTable J n) :=
  let g := s.guards k
  let opened (guard : FieldGuard J) :=
    s.setGuard k ⟨guard, ⟨some cmd, (s.table.clients k).written, g.guard⟩ :: g.frames⟩
  match cmd.guardedValue ev.aggregateId tf.name with
  | none => some (opened g.guard)
  | some next =>
    -- `selectRowForUpdateById`: waits for the row
    if s.table.RowHeld k ∨ s.LockedElsewhere k then none
    else
      match s.table.visibleRow k with
      | none => some (opened g.guard)
      | some row =>
        if ev.softDelete && ev.isTrue (row.value "isDeleted") then some (opened g.guard)
        else if tf.allows (row.value tf.name) next then
          some (opened { g.guard with passed := next :: g.guard.passed })
        else some s

variable [DecidableEq J]

/-- What the transaction knows after a statement of its innermost verb. A verb that fails is rolled back. -/
def guardAfter (g : GuardedClient J) (frame : GuardFrame J) (rest : List (GuardFrame J)) (phase : VerbPhase J)
    (goesOn : Bool) (before after : Option (FieldValue J)) : GuardedClient J :=
  match phase with
  | .projections => ⟨g.guard, rest⟩
  | .project _ =>
    if goesOn then ⟨⟨if before = after then g.guard.passed else [], g.guard.written ++ [after]⟩, g.frames⟩
    else ⟨frame.guard, rest⟩
  | _ => if goesOn then g else ⟨frame.guard, rest⟩

/-- The next statement of the innermost verb. The write of the row waits for a lock. -/
def runGuarded (s : GuardedTable J n) (k : Fin n) (now : ℕ) (frame : GuardFrame J) (rest : List (GuardFrame J)) :
    Option (GuardedTable J n) :=
  match (s.table.clients k).calls with
  | [] => none
  | o :: calls =>
    if o.phase.projects ∧ s.LockedElsewhere k then none
    else (ev.runVerb s.table k now o calls).map fun table =>
      let goesOn := (table.clients k).calls.length = calls.length + 1
      { s with
        table
        guards := Function.update s.guards k (guardAfter (s.guards k) frame rest o.phase goesOn
          (tf.valueOf (s.table.visibleRow k)) (tf.valueOf (table.visibleRow k))) }

/-- One step of the guarded system. Commands run inside a transaction, and verbs inside a command. -/
def guardedStep (s : GuardedTable J n) : GuardedAct J n → Option (GuardedTable J n)
  | .begin k => (ev.step s.table (.begin k)).map fun table => { s with table }
  | .commit k =>
    if (s.guards k).frames.isEmpty then
      (ev.step s.table (.commit k)).map fun table =>
        { table, values := s.values ++ (s.guards k).guard.written
          guards := Function.update s.guards k ⟨.empty, []⟩ }
    else none
  | .rollback k =>
    if (s.guards k).frames.isEmpty then
      (ev.step s.table (.rollback k)).map fun table =>
        { s with table, guards := Function.update s.guards k ⟨.empty, []⟩ }
    else none
  | .dispatch k cmd => if (s.table.clients k).inTx then ev.dispatch tf s k cmd else none
  | .settle k =>
    match (s.guards k).frames with
    | ⟨some _, _, _⟩ :: rest => some (s.setGuard k ⟨(s.guards k).guard, rest⟩)
    | _ => none
  | .fail k =>
    match (s.guards k).frames with
    | ⟨some _, written, guard⟩ :: rest =>
      some { s with
        table := s.table.setClient k { s.table.clients k with written }
        guards := Function.update s.guards k ⟨guard, rest⟩ }
    | _ => none
  | .call k c =>
    if (s.table.clients k).inTx ∧ (s.guards k).frames ≠ [] then
      (ev.step s.table (.call k c)).map fun table =>
        { s with
          table
          guards := Function.update s.guards k ⟨(s.guards k).guard,
            ⟨none, (s.table.clients k).written, (s.guards k).guard⟩ :: (s.guards k).frames⟩ }
    else none
  | .run k now =>
    match (s.guards k).frames with
    | ⟨none, written, guard⟩ :: rest => ev.runGuarded tf s k now ⟨none, written, guard⟩ rest
    | _ => none
  | .error k =>
    match (s.guards k).frames with
    | ⟨none, _, guard⟩ :: rest =>
      (ev.step s.table (.error k)).map fun table =>
        { s with table, guards := Function.update s.guards k ⟨guard, rest⟩ }
    | _ => none
  | .archive tenantId => (ev.step s.table (.archive tenantId)).map fun table => { s with table }
  | .unarchive tenantId => (ev.step s.table (.unarchive tenantId)).map fun table => { s with table }

end EntityVerbs

/-! ## What a statement does -/

namespace EntityVerbs

variable (ev : EntityVerbs J)

/-- What the next statement of a verb does: the verb fails, ends, goes on with the row as it is, or writes it. -/
inductive VerbStep (s : AggregateTable J n) (k : Fin n) (o : OpenVerb J) (rest : List (OpenVerb J)) :
    AggregateTable J n → Prop
  | fail : o.phase ≠ .projections → VerbStep s k o rest (s.fail k o rest)
  | finish : o.phase = .projections → VerbStep s k o rest (s.finish k o rest)
  | goOn {events : List (EntityEvent J)} {phase : VerbPhase J} : o.phase.projects = false →
      o.phase ≠ .projections → VerbStep s k o rest (s.setClient k { s.clients k with
        written := ⟨events, (s.clients k).written.row⟩, calls := { o with phase } :: rest })
  | project {e : EntityEvent J} {row : Option (EntityRow J)} : o.phase = .project e → ¬ s.RowHeld k →
      ev.applyEntityEvent (s.visibleRow k) e = some row → VerbStep s k o rest (s.setClient k { s.clients k with
        written := ⟨(s.clients k).written.events, some row⟩, calls := { o with phase := .projections } :: rest })

variable {ev} {s s' : AggregateTable J n} {k : Fin n} {o : OpenVerb J} {rest : List (OpenVerb J)}

theorem VerbStep.goto {phase : VerbPhase J} (hp : o.phase.projects = false) (hne : o.phase ≠ .projections) :
    ev.VerbStep s k o rest (s.goto k o rest phase) := .goOn hp hne

theorem VerbStep.of_appendEvent {e : EntityEvent J} (hp : o.phase.projects = false) (hne : o.phase ≠ .projections)
    (h : s.appendEvent k o rest e = some s') : ev.VerbStep s k o rest s' := by
  simp only [AggregateTable.appendEvent] at h
  split at h
  · cases h
    exact .fail hne
  · split at h
    · cases h
      exact .fail hne
    · split at h
      · cases h
      · cases h
        exact .goOn hp hne

theorem VerbStep.of_projectEvent {e : EntityEvent J} (hp : o.phase = .project e)
    (h : ev.projectEvent s k o rest e = some s') : ev.VerbStep s k o rest s' := by
  have hne : o.phase ≠ .projections := by
    rw [hp]
    exact fun h => (nomatch h)
  simp only [projectEvent] at h
  split at h
  · cases h
  · next hfree =>
    split at h
    · cases h
      exact .fail hne
    · next row happly =>
      split at h
      · cases h
        exact .fail hne
      · cases h
        exact .project hp hfree happly

theorem VerbStep.of_runVerb {now : ℕ} (h : ev.runVerb s k now o rest = some s') : ev.VerbStep s k o rest s' := by
  cases hphase : o.phase with
  | project e =>
    simp only [runVerb, hphase] at h
    exact .of_projectEvent hphase h
  | projections =>
    simp only [runVerb, hphase] at h
    cases h
    exact .finish hphase
  | append previous changes expectedVersion =>
    simp only [runVerb, hphase] at h
    exact .of_appendEvent (by rw [hphase]; rfl) (by rw [hphase]; exact fun h => (nomatch h)) h
  | readable loaded | load checked | guard checked previous | archived checked previous changes
  | version checked previous changes =>
    have hp : o.phase.projects = false := by rw [hphase]; rfl
    have hne : o.phase ≠ .projections := by
      rw [hphase]
      exact fun h => (nomatch h)
    simp only [runVerb, hphase] at h
    repeat' split at h
    all_goals cases h
    all_goals first | exact .goto hp hne | exact .fail hne

end EntityVerbs

/-! ## The invariant -/

namespace TransitionField

variable (tf : TransitionField)

/-- The values are a path of the graph. -/
def Path (values : List (Option (FieldValue J))) : Prop :=
  Along (fun before value => ∀ last ∈ before.getLast?, tf.Moves last value) values

/-- What a transaction that has written `tx` knows, where the values and the row are committed. -/
structure Knows (values : List (Option (FieldValue J))) (row : Option (EntityRow J)) (tx : VerbTx J)
    (g : FieldGuard J) : Prop where
  passed : ∀ next ∈ g.passed, ∃ current, tf.valueOf (tx.row.getD row) = some current ∧ tf.allows current next = true
  path : tf.Path (values ++ g.written)
  last : (values ++ g.written).getLast? = some (tf.valueOf (tx.row.getD row))
  untouched : tx.row = none → g.written = []

end TransitionField

def GuardFrame.level (frame : GuardFrame J) : VerbTx J × FieldGuard J := (frame.written, frame.guard)

/-- The transaction of a client as it is, and as it was at each of its savepoints. -/
def levels (cl : VerbClient J) (g : GuardedClient J) : List (VerbTx J × FieldGuard J) :=
  (cl.written, g.guard) :: g.frames.map (·.level)

/-- The transaction has written the row or locked it. -/
def Touches (cl : VerbClient J) (g : GuardedClient J) : Prop :=
  ∃ level ∈ levels cl g, level.1.row.isSome = true ∨ level.2.passed ≠ []

/-- One client: its savepoints are those of its verbs, and what was written before a savepoint is still written. -/
structure GuardedOk (tf : TransitionField) (values : List (Option (FieldValue J))) (row : Option (EntityRow J))
    (cl : VerbClient J) (g : GuardedClient J) : Prop where
  knows : ∀ level ∈ levels cl g, tf.Knows values row level.1 level.2
  rows : (levels cl g).Pairwise fun inner outer => outer.1.row.isSome = true → inner.1.row.isSome = true
  verbs : (g.frames.filter (·.command.isNone)).map (·.written) = cl.calls.map (·.saved)
  own : ∀ o ∈ cl.calls, o.own = false
  idle : cl.inTx = false → g = ⟨.empty, []⟩ ∧ cl.written = .empty

structure GuardedInv (tf : TransitionField) (s : GuardedTable J n) : Prop where
  committed : tf.Knows s.values s.table.row .empty .empty
  clients : ∀ k, GuardedOk tf s.values s.table.row (s.table.clients k) (s.guards k)
  alone : ∀ {j k}, Touches (s.table.clients j) (s.guards j) → Touches (s.table.clients k) (s.guards k) → j = k

section Levels

variable {tf : TransitionField} {values : List (Option (FieldValue J))} {row : Option (EntityRow J)}
  {cl : VerbClient J} {g : GuardedClient J} {frame : GuardFrame J} {rest : List (GuardFrame J)}

theorem not_touches_closed (inTx : Bool) (calls : List (OpenVerb J)) :
    ¬ Touches ⟨inTx, .empty, calls⟩ ⟨.empty, []⟩ := by
  rintro ⟨level, hlevel, htouch⟩
  rw [List.mem_singleton.1 hlevel] at htouch
  obtain hrow | hpassed := htouch
  · cases hrow
  · exact hpassed rfl

theorem guardedOk_closed (h : tf.Knows values row .empty .empty) (inTx : Bool) :
    GuardedOk tf values row ⟨inTx, .empty, []⟩ ⟨.empty, []⟩ where
  knows level hlevel := by
    rw [List.mem_singleton.1 hlevel]
    exact h
  rows := List.pairwise_singleton _ _
  verbs := rfl
  own _ ho := nomatch ho
  idle _ := ⟨rfl, rfl⟩

/-- A client that has not written the row, and whose guards have locked nothing. -/
theorem GuardedOk.not_touches (h : GuardedOk tf values row cl g) (hrow : ¬ cl.written.row.isSome = true)
    (hfree : ¬ (g.guard.passed ≠ [] ∨ ∃ frame ∈ g.frames, frame.guard.passed ≠ [])) : ¬ Touches cl g := by
  rintro ⟨level, hlevel, htouch⟩
  obtain rfl | hlevel := List.mem_cons.1 hlevel
  · exact htouch.elim hrow fun hpassed => hfree (.inl hpassed)
  · obtain hsome | hpassed := htouch
    · exact hrow ((List.pairwise_cons.1 h.rows).1 level hlevel hsome)
    · obtain ⟨frame, hframe, rfl⟩ := List.mem_map.1 hlevel
      exact hfree (.inr ⟨frame, hframe, hpassed⟩)

/-- The innermost savepoint is released. -/
theorem levels_release (hg : g.frames = frame :: rest) :
    (levels cl ⟨g.guard, rest⟩).Sublist (levels cl g) := by
  rw [levels, levels, hg]
  exact (List.sublist_cons_self _ _).cons_cons _

/-- The transaction is rolled back to its innermost savepoint. -/
theorem levels_restore {inTx : Bool} (hg : g.frames = frame :: rest) :
    (levels ⟨inTx, frame.written, calls⟩ ⟨frame.guard, rest⟩).Sublist (levels cl g) := by
  rw [levels, levels, hg]
  exact List.sublist_cons_self _ _

theorem Touches.of_sublist {cl' : VerbClient J} {g' : GuardedClient J}
    (hsub : (levels cl' g').Sublist (levels cl g)) (h : Touches cl' g') : Touches cl g := by
  obtain ⟨level, hlevel, htouch⟩ := h
  exact ⟨level, hsub.subset hlevel, htouch⟩

/-- Fewer savepoints. -/
theorem GuardedOk.of_sublist {cl' : VerbClient J} {g' : GuardedClient J} (h : GuardedOk tf values row cl g)
    (hsub : (levels cl' g').Sublist (levels cl g))
    (hverbs : (g'.frames.filter (·.command.isNone)).map (·.written) = cl'.calls.map (·.saved))
    (hown : ∀ o ∈ cl'.calls, o ∈ cl.calls) (htx : cl'.inTx = true) : GuardedOk tf values row cl' g' where
  knows level hlevel := h.knows level (hsub.subset hlevel)
  rows := h.rows.sublist hsub
  verbs := hverbs
  own o ho := h.own o (hown o ho)
  idle hidle := by
    rw [htx] at hidle
    cases hidle

/-- Where the transaction has written nothing, it knows what is committed. -/
theorem knows_of_committed (h : tf.Knows values row .empty .empty) {tx : VerbTx J} {guard : FieldGuard J}
    (hrow : tx.row = none) (hpassed : guard.passed = []) (hwritten : guard.written = []) :
    tf.Knows values row tx guard where
  passed next hnext := by
    rw [hpassed] at hnext
    cases hnext
  path := by
    rw [hwritten]
    exact h.path
  last := by
    rw [hwritten, hrow]
    exact h.last
  untouched _ := hwritten

end Levels

/-! ## Steps -/

section Steps

variable {ev : EntityVerbs J} {tf : TransitionField} {s s' : GuardedTable J n} {k : Fin n} {cl : VerbClient J}
  {g : GuardedClient J} {frame : GuardFrame J} {rest : List (GuardFrame J)} {written : VerbTx J}
  {before after : Option (FieldValue J)} {cmd : WriteCommand J}

/-- A step of one client. -/
def GuardedTable.put (s : GuardedTable J n) (k : Fin n) (cl : VerbClient J) (g : GuardedClient J) :
    GuardedTable J n :=
  { s with table := s.table.setClient k cl, guards := Function.update s.guards k g }

theorem setGuard_eq_put : s.setGuard k g = s.put k (s.table.clients k) g := by
  rw [GuardedTable.put, AggregateTable.setClient, Function.update_eq_self]
  rfl

theorem GuardedInv.put (h : GuardedInv tf s) (hk : GuardedOk tf s.values s.table.row cl g)
    (htouch : Touches cl g → Touches (s.table.clients k) (s.guards k) ∨
      ∀ j, j ≠ k → ¬ Touches (s.table.clients j) (s.guards j)) : GuardedInv tf (s.put k cl g) where
  committed := h.committed
  clients j := by
    show GuardedOk tf s.values s.table.row (Function.update s.table.clients k cl j) (Function.update s.guards k g j)
    by_cases hj : j = k
    · subst hj
      rwa [Function.update_self, Function.update_self]
    · rw [Function.update_of_ne hj, Function.update_of_ne hj]
      exact h.clients j
  alone {i j} hi hj := by
    change Touches (Function.update s.table.clients k cl i) (Function.update s.guards k g i) at hi
    change Touches (Function.update s.table.clients k cl j) (Function.update s.guards k g j) at hj
    by_cases hik : i = k <;> by_cases hjk : j = k
    · rw [hik, hjk]
    · subst hik
      rw [Function.update_self, Function.update_self] at hi
      rw [Function.update_of_ne hjk, Function.update_of_ne hjk] at hj
      exact (htouch hi).elim (fun hold => h.alone hold hj) fun hnone => absurd hj (hnone j hjk)
    · subst hjk
      rw [Function.update_self, Function.update_self] at hj
      rw [Function.update_of_ne hik, Function.update_of_ne hik] at hi
      exact (htouch hj).elim (fun hold => h.alone hi hold) fun hnone => absurd hi (hnone i hik)
    · rw [Function.update_of_ne hik, Function.update_of_ne hik] at hi
      rw [Function.update_of_ne hjk, Function.update_of_ne hjk] at hj
      exact h.alone hi hj

/-- A step of one client that only gives up savepoints. -/
theorem GuardedInv.put_of_sublist (h : GuardedInv tf s)
    (hsub : (levels cl g).Sublist (levels (s.table.clients k) (s.guards k)))
    (hverbs : (g.frames.filter (·.command.isNone)).map (·.written) = cl.calls.map (·.saved))
    (hown : ∀ o ∈ cl.calls, o ∈ (s.table.clients k).calls) (htx : cl.inTx = true) : GuardedInv tf (s.put k cl g) :=
  h.put ((h.clients k).of_sublist hsub hverbs hown htx) fun htouch => .inl (htouch.of_sublist hsub)

theorem GuardedInv.put_closed (h : GuardedInv tf s) (inTx : Bool) :
    GuardedInv tf (s.put k ⟨inTx, .empty, []⟩ ⟨.empty, []⟩) :=
  h.put (guardedOk_closed h.committed inTx) fun htouch => absurd htouch (not_touches_closed _ _)

theorem GuardedInv.inTx (h : GuardedInv tf s) (hframes : (s.guards k).frames = frame :: rest) :
    (s.table.clients k).inTx = true := by
  by_contra hidle
  have hempty := ((h.clients k).idle (by simpa using hidle)).1
  rw [hempty] at hframes
  cases hframes

/-- Nobody else has written the row or locked it. -/
theorem GuardedInv.free (h : GuardedInv tf s) (hrow : ¬ s.table.RowHeld k) (hlock : ¬ s.LockedElsewhere k) :
    ∀ j, j ≠ k → ¬ Touches (s.table.clients j) (s.guards j) := fun j hj =>
  (h.clients j).not_touches (fun hsome => hrow ⟨j, hj, hsome⟩) fun hlocked => hlock ⟨j, hj, hlocked⟩

/-! ### Commands -/

/-- A savepoint is set, and the guard has perhaps let a value through. -/
theorem GuardedInv.open (h : GuardedInv tf s) {guard : FieldGuard J}
    (htx : (s.table.clients k).inTx = true) (hknows : tf.Knows s.values s.table.row (s.table.clients k).written guard)
    (htouch : guard.passed ≠ [] → (s.guards k).guard.passed ≠ [] ∨
      ∀ j, j ≠ k → ¬ Touches (s.table.clients j) (s.guards j)) :
    GuardedInv tf (s.setGuard k
      ⟨guard, ⟨some cmd, (s.table.clients k).written, (s.guards k).guard⟩ :: (s.guards k).frames⟩) := by
  have hk := h.clients k
  rw [setGuard_eq_put]
  refine h.put ⟨fun level hlevel => ?_, ?_, hk.verbs, hk.own, fun hidle => ?_⟩ ?_
  · obtain rfl | hlevel := List.mem_cons.1 hlevel
    · exact hknows
    · exact hk.knows level hlevel
  · refine List.pairwise_cons.2 ⟨fun level hlevel hsome => ?_, hk.rows⟩
    obtain rfl | hlevel := List.mem_cons.1 hlevel
    · exact hsome
    · exact (List.pairwise_cons.1 hk.rows).1 level hlevel hsome
  · rw [htx] at hidle
    cases hidle
  · rintro ⟨level, hlevel, htouched⟩
    obtain rfl | hlevel := List.mem_cons.1 hlevel
    · obtain hsome | hpassed := htouched
      · exact .inl ⟨_, List.mem_cons_self, .inl hsome⟩
      · exact (htouch hpassed).imp_left fun hpassed => ⟨_, List.mem_cons_self, .inr hpassed⟩
    · exact .inl ⟨level, hlevel, htouched⟩

theorem GuardedInv.dispatch (h : GuardedInv tf s) (htx : (s.table.clients k).inTx = true)
    (hs : ev.dispatch tf s k cmd = some s') : GuardedInv tf s' := by
  have hknows := (h.clients k).knows _ List.mem_cons_self
  have hskip : GuardedInv tf (s.setGuard k
      ⟨(s.guards k).guard, ⟨some cmd, (s.table.clients k).written, (s.guards k).guard⟩ :: (s.guards k).frames⟩) :=
    h.open htx hknows fun hpassed => .inl hpassed
  simp only [EntityVerbs.dispatch] at hs
  split at hs
  · cases hs
    exact hskip
  · next next _ =>
    split at hs
    · cases hs
    · next hfree =>
      obtain ⟨hrow, hlock⟩ := not_or.1 hfree
      split at hs
      · cases hs
        exact hskip
      · next row hvisible =>
        split at hs
        · cases hs
          exact hskip
        · split at hs
          · next hallows =>
            cases hs
            refine h.open htx ⟨fun v hv => ?_, hknows.path, hknows.last, hknows.untouched⟩
              fun _ => .inr (h.free hrow hlock)
            obtain rfl | hv := List.mem_cons.1 hv
            · refine ⟨row.value tf.name, ?_, hallows⟩
              show tf.valueOf (s.table.visibleRow k) = _
              rw [hvisible]
              rfl
            · exact hknows.passed v hv
          · cases hs
            exact h

theorem GuardedInv.settle (h : GuardedInv tf s) {guard : FieldGuard J}
    (hframes : (s.guards k).frames = ⟨some cmd, written, guard⟩ :: rest) :
    GuardedInv tf (s.setGuard k ⟨(s.guards k).guard, rest⟩) := by
  have hverbs := (h.clients k).verbs
  rw [hframes] at hverbs
  rw [setGuard_eq_put]
  exact h.put_of_sublist (levels_release hframes) hverbs (fun _ ho => ho) (h.inTx hframes)

theorem GuardedInv.fail (h : GuardedInv tf s) {guard : FieldGuard J}
    (hframes : (s.guards k).frames = ⟨some cmd, written, guard⟩ :: rest) :
    GuardedInv tf (s.put k { s.table.clients k with written } ⟨guard, rest⟩) := by
  have hverbs := (h.clients k).verbs
  rw [hframes] at hverbs
  exact h.put_of_sublist (levels_restore hframes) hverbs (fun _ ho => ho) (h.inTx hframes)

/-! ### Verbs -/

/-- A verb is called in a savepoint of its own. -/
theorem GuardedInv.call (h : GuardedInv tf s) {c : VerbCall J} (htx : (s.table.clients k).inTx = true) :
    GuardedInv tf (s.put k
      { s.table.clients k with inTx := true, calls := ev.openVerb s.table k c :: (s.table.clients k).calls }
      ⟨(s.guards k).guard, ⟨none, (s.table.clients k).written, (s.guards k).guard⟩ :: (s.guards k).frames⟩) := by
  have hk := h.clients k
  have hlevel : ∀ level ∈ levels (s.table.clients k) ⟨(s.guards k).guard,
      ⟨none, (s.table.clients k).written, (s.guards k).guard⟩ :: (s.guards k).frames⟩,
      level ∈ levels (s.table.clients k) (s.guards k) := by
    intro level hlevel
    obtain rfl | hlevel := List.mem_cons.1 hlevel
    · exact List.mem_cons_self
    · exact hlevel
  refine h.put ⟨fun level hl => hk.knows level (hlevel level hl), ?_, ?_, fun o ho => ?_, fun hidle => ?_⟩ ?_
  · refine List.pairwise_cons.2 ⟨fun level hl hsome => ?_, hk.rows⟩
    obtain rfl | hl := List.mem_cons.1 hl
    · exact hsome
    · exact (List.pairwise_cons.1 hk.rows).1 level hl hsome
  · show (s.table.clients k).written :: ((s.guards k).frames.filter (·.command.isNone)).map (·.written) =
      (s.table.clients k).written :: (s.table.clients k).calls.map (·.saved)
    rw [hk.verbs]
  · obtain rfl | ho := List.mem_cons.1 ho
    · show (!(s.table.clients k).inTx) = false
      rw [htx]
      rfl
    · exact hk.own o ho
  · cases hidle
  · rintro ⟨level, hl, htouched⟩
    exact .inl ⟨level, hlevel level hl, htouched⟩

/-- The frame of the innermost verb. -/
theorem GuardedInv.saved (h : GuardedInv tf s) {guard : FieldGuard J} {o : OpenVerb J}
    (hframes : (s.guards k).frames = ⟨none, written, guard⟩ :: rest)
    (hcalls : (s.table.clients k).calls = o :: calls) :
    written = o.saved ∧ (rest.filter (·.command.isNone)).map (·.written) = calls.map (·.saved) ∧ o.own = false := by
  have hverbs := (h.clients k).verbs
  rw [hframes, hcalls] at hverbs
  obtain ⟨hsaved, hrest⟩ := List.cons.inj hverbs
  exact ⟨hsaved, hrest, (h.clients k).own o (by rw [hcalls]; exact List.mem_cons_self)⟩

theorem GuardedInv.failVerb (h : GuardedInv tf s) {guard : FieldGuard J} {o : OpenVerb J}
    (hframes : (s.guards k).frames = ⟨none, written, guard⟩ :: rest)
    (hcalls : (s.table.clients k).calls = o :: calls) :
    GuardedInv tf (s.put k ⟨!o.own, o.saved, calls⟩ ⟨guard, rest⟩) := by
  obtain ⟨rfl, hrest, hown⟩ := h.saved hframes hcalls
  refine h.put_of_sublist (levels_restore hframes) hrest (fun o' ho' => ?_) (by rw [hown]; rfl)
  rw [hcalls]
  exact List.mem_cons_of_mem _ ho'

/-- The value that an update is about to give the field. -/
def writtenValue (ev : EntityVerbs J) (tf : TransitionField) (phase : VerbPhase J) : Option (FieldValue J) :=
  match phase with
  | .project e => match e.payload with
    | .updated changes _ => ev.columns changes tf.name
    | _ => none
  | _ => none

/-- No handler skips the guard. -/
def NoneSkips (_ : GuardedTable J n) : GuardedAct J n → Prop
  | .dispatch _ cmd => cmd.unsafeSkipTransitionGuard = false
  | _ => True

/-- Every update gives the field a value that the guard has let through for the row as it stands, or leaves it
as it is; and no handler skips the guard. -/
def FieldGuarded (ev : EntityVerbs J) (tf : TransitionField) (s : GuardedTable J n) : GuardedAct J n → Prop
  | .dispatch _ cmd => cmd.unsafeSkipTransitionGuard = false
  | .run k _ => ∀ o ∈ (s.table.clients k).calls.head?, ∀ value ∈ writtenValue ev tf o.phase,
      tf.valueOf (s.table.visibleRow k) = some value ∨ ∃ next ∈ (s.guards k).guard.passed, value = .text next
  | _ => True

instance (s : GuardedTable J n) (a : GuardedAct J n) : Decidable (NoneSkips s a) := by
  unfold NoneSkips
  split <;> infer_instance

instance [DecidableEq J] (ev : EntityVerbs J) (tf : TransitionField) (s : GuardedTable J n) (a : GuardedAct J n) :
    Decidable (FieldGuarded ev tf s a) := by
  unfold FieldGuarded
  split <;> infer_instance

/-- The columns that an event sets by itself are none of the field. -/
theorem value_overlay_of_none {row changes : EntityRow J} {name : String} (h : changes name = none) :
    (row.overlay changes).value name = row.value name := by
  rw [EntityRow.value, EntityRow.overlay, h, Option.none_or, EntityRow.value]

theorem allows_moves {current : FieldValue J} {next : JsText} (h : tf.allows current next = true) :
    tf.Moves (some current) (some (.text next)) := by
  unfold TransitionField.allows at h
  split at h
  · next value =>
    obtain hsame | hmove := Bool.or_eq_true_iff.1 h
    · rw [of_decide_eq_true hsame]
      exact .inr (.inr (.inl rfl))
    · exact .inr (.inr (.inr ⟨value, next, rfl, rfl, hmove⟩))
  · cases h

theorem ofColumns_of_undeclared {columns : List (String × FieldValue J)}
    (h : ∀ column ∈ columns, column.1 ∈ ["version", "modifiedAt", "modifiedById", "isDeleted", "deletedAt",
      "deletedById"]) : EntityRow.ofColumns columns tf.name = none := by
  refine List.lookup_eq_none_iff.2 fun column hcolumn => ?_
  have hne : tf.name ≠ column.1 := fun heq => tf.declared (heq ▸ h column hcolumn)
  simpa using hne

theorem modified_name (e : EntityEvent J) : ev.modified e tf.name = none :=
  ofColumns_of_undeclared (by simp)

theorem trashed_name (e : EntityEvent J) : ev.trashed e tf.name = none :=
  ofColumns_of_undeclared (by simp)

theorem untrashed_name : ev.untrashed tf.name = none :=
  ofColumns_of_undeclared (by simp)

theorem overlay_modified (changes : EntityRow J) (e : EntityEvent J) :
    (changes.overlay (ev.modified e)) tf.name = changes tf.name := by
  rw [EntityRow.overlay, modified_name, Option.none_or]

theorem moves_refl (value : Option (FieldValue J)) : tf.Moves value value := .inr (.inr (.inl rfl))

/-- The write of a row is a step of the field. -/
theorem moves_of_apply {row row' : Option (EntityRow J)} {e : EntityEvent J}
    (h : ev.applyEntityEvent row e = some row')
    (hupdate : ∀ changes previous, e.payload = .updated changes previous → ∀ value,
      ev.columns changes tf.name = some value → tf.Moves (tf.valueOf row) (some value)) :
    tf.Moves (tf.valueOf row) (tf.valueOf row') := by
  cases row with
  | none => exact .inl rfl
  | some r =>
    have hkept {changes : EntityRow J} (hnone : changes tf.name = none) :
        tf.Moves (some (r.value tf.name)) (some ((r.overlay changes).value tf.name)) := by
      rw [value_overlay_of_none hnone]
      exact moves_refl _
    unfold EntityVerbs.applyEntityEvent at h
    cases hpayload : e.payload with
    | created data =>
      rw [hpayload] at h
      cases h
    | updated changes previous =>
      rw [hpayload] at h
      cases h
      cases hvalue : ev.columns changes tf.name with
      | none => exact hkept (by rw [overlay_modified, hvalue])
      | some value =>
        have hafter : (r.overlay ((ev.columns changes).overlay (ev.modified e))).value tf.name = value := by
          rw [EntityRow.value, EntityRow.overlay, overlay_modified, hvalue, Option.some_or, Option.getD_some]
        show tf.Moves (some (r.value tf.name))
          (some ((r.overlay ((ev.columns changes).overlay (ev.modified e))).value tf.name))
        rw [hafter]
        exact hupdate changes previous hpayload value hvalue
    | deleted previous =>
      rw [hpayload] at h
      cases h
      split
      · exact hkept (by rw [overlay_modified, trashed_name])
      · exact .inr (.inl rfl)
    | restored previous =>
      rw [hpayload] at h
      cases h
      split
      · exact hkept (by rw [overlay_modified, untrashed_name])
      · exact moves_refl _
    | forgotten previous =>
      rw [hpayload] at h
      cases h
      exact .inr (.inl rfl)
    | domainEvent =>
      rw [hpayload] at h
      cases h
      exact moves_refl _

theorem path_concat {values : List (Option (FieldValue J))}
    (h : tf.Path values) (hlast : values.getLast? = some before) (hmove : tf.Moves before after) :
    tf.Path (values ++ [after]) := by
  refine along_concat.2 ⟨h, fun last hl => ?_⟩
  rw [hlast] at hl
  cases hl
  exact hmove

/-- The row is written, and nobody else has a hand on it. -/
theorem GuardedInv.write (h : GuardedInv tf s) {events : List (EntityEvent J)}
    {row : Option (EntityRow J)} {passed : List JsText} (htx : (s.table.clients k).inTx = true)
    (hrow : ¬ s.table.RowHeld k) (hlock : ¬ s.LockedElsewhere k)
    (hmove : tf.Moves (tf.valueOf (s.table.visibleRow k)) (tf.valueOf row))
    (hpassed : ∀ next ∈ passed, next ∈ (s.guards k).guard.passed ∧ tf.valueOf (s.table.visibleRow k) = tf.valueOf row)
    (hsaved : calls.map (·.saved) = (s.table.clients k).calls.map (·.saved)) (hown : ∀ o ∈ calls, o.own = false) :
    GuardedInv tf (s.put k { s.table.clients k with written := ⟨events, some row⟩, calls }
      ⟨⟨passed, (s.guards k).guard.written ++ [tf.valueOf row]⟩, (s.guards k).frames⟩) := by
  have hk := h.clients k
  have hknows := hk.knows _ List.mem_cons_self
  refine h.put ⟨fun level hlevel => ?_, ?_, hk.verbs.trans hsaved.symm, hown, fun hidle => ?_⟩
    fun _ => .inr (h.free hrow hlock)
  · obtain rfl | hlevel := List.mem_cons.1 hlevel
    · refine ⟨fun next hnext => ?_, ?_, ?_, fun hnone => (nomatch hnone)⟩
      · obtain ⟨hold, hsame⟩ := hpassed next hnext
        obtain ⟨current, hcurrent, hallows⟩ := hknows.passed next hold
        exact ⟨current, hsame.symm.trans hcurrent, hallows⟩
      · rw [← List.append_assoc]
        exact path_concat hknows.path hknows.last hmove
      · rw [← List.append_assoc, List.getLast?_concat]
        rfl
    · exact hk.knows level (List.mem_cons_of_mem _ hlevel)
  · exact List.pairwise_cons.2 ⟨fun _ _ _ => rfl, (List.pairwise_cons.1 hk.rows).2⟩
  · rw [show (s.table.clients k).inTx = false from hidle] at htx
    cases htx

theorem visibleRow_setClient {t : AggregateTable J n} {row : Option (EntityRow J)} (h : cl.written.row = some row) :
    (t.setClient k cl).visibleRow k = row := by
  rw [AggregateTable.visibleRow, AggregateTable.setClient]
  simp only [Function.update_self, h, Option.getD_some]

theorem knows_of_row {tx tx' : VerbTx J} {guard : FieldGuard J} (h : tf.Knows s.values s.table.row tx guard)
    (hrow : tx'.row = tx.row) : tf.Knows s.values s.table.row tx' guard where
  passed := by
    rw [hrow]
    exact h.passed
  path := h.path
  last := by
    rw [hrow]
    exact h.last
  untouched hnone := h.untouched (hrow ▸ hnone)

/-- The row is left as it is. -/
theorem GuardedInv.leave (h : GuardedInv tf s) {events : List (EntityEvent J)} (htx : (s.table.clients k).inTx = true)
    (hsaved : calls.map (·.saved) = (s.table.clients k).calls.map (·.saved)) (hown : ∀ o ∈ calls, o.own = false) :
    GuardedInv tf (s.put k
      { s.table.clients k with written := ⟨events, (s.table.clients k).written.row⟩, calls } (s.guards k)) := by
  have hk := h.clients k
  have hknows := hk.knows ((s.table.clients k).written, (s.guards k).guard) List.mem_cons_self
  refine h.put ⟨fun level hlevel => ?_, ?_, hk.verbs.trans hsaved.symm, hown, fun hidle => ?_⟩ ?_
  · obtain rfl | hlevel := List.mem_cons.1 hlevel
    · exact knows_of_row hknows rfl
    · exact hk.knows level (List.mem_cons_of_mem _ hlevel)
  · exact List.pairwise_cons.2 ⟨(List.pairwise_cons.1 hk.rows).1, (List.pairwise_cons.1 hk.rows).2⟩
  · rw [show (s.table.clients k).inTx = false from hidle] at htx
    cases htx
  · rintro ⟨level, hlevel, htouched⟩
    obtain rfl | hlevel := List.mem_cons.1 hlevel
    · exact .inl ⟨_, List.mem_cons_self, htouched⟩
    · exact .inl ⟨level, List.mem_cons_of_mem _ hlevel, htouched⟩

theorem guardAfter_of_goOn [DecidableEq J] {phase : VerbPhase J} {goesOn : Bool}
    (hp : phase.projects = false) (hne : phase ≠ .projections) (hgoes : goesOn = true) :
    EntityVerbs.guardAfter g frame rest phase goesOn before after = g := by
  rw [hgoes]
  unfold EntityVerbs.guardAfter
  split
  · exact absurd rfl hne
  · cases hp
  · rfl

theorem guardAfter_of_project [DecidableEq J] {e : EntityEvent J} {goesOn : Bool} (hgoes : goesOn = true) :
    EntityVerbs.guardAfter g frame rest (.project e) goesOn before after =
      ⟨⟨if before = after then g.guard.passed else [], g.guard.written ++ [after]⟩, g.frames⟩ := by
  rw [hgoes]
  rfl

/-- The next statement of the innermost verb. -/
theorem GuardedInv.run [DecidableEq J] (h : GuardedInv tf s) {now : ℕ} {guard : FieldGuard J}
    (hframes : (s.guards k).frames = ⟨none, written, guard⟩ :: rest) (hok : FieldGuarded ev tf s (.run k now))
    (hs : ev.runGuarded tf s k now ⟨none, written, guard⟩ rest = some s') : GuardedInv tf s' := by
  simp only [EntityVerbs.runGuarded] at hs
  split at hs
  · cases hs
  · next o calls hcalls =>
    split at hs
    · cases hs
    · next hlock =>
      obtain ⟨table, hrun, rfl⟩ := Option.map_eq_some_iff.1 hs
      have hk := h.clients k
      obtain ⟨-, hrest, hown⟩ := h.saved hframes hcalls
      have hmem : ∀ o' ∈ calls, o' ∈ (s.table.clients k).calls := fun o' ho' => by
        rw [hcalls]
        exact List.mem_cons_of_mem _ ho'
      cases EntityVerbs.VerbStep.of_runVerb hrun with
      | fail hne =>
        have hafter {before after : Option (FieldValue J)} : EntityVerbs.guardAfter (s.guards k) ⟨none, written, guard⟩
            rest o.phase (((s.table.fail k o calls).clients k).calls.length = calls.length + 1) before after =
              ⟨guard, rest⟩ := by
          have hgone : decide (((s.table.fail k o calls).clients k).calls.length = calls.length + 1) = false := by
            simp [AggregateTable.fail, AggregateTable.setClient]
          rw [hgone]
          unfold EntityVerbs.guardAfter
          split
          · next hphase => exact absurd hphase hne
          · rfl
          · rfl
        rw [hafter]
        exact h.failVerb hframes hcalls
      | finish hphase =>
        rw [hphase]
        simp only [AggregateTable.finish, hown]
        have hput : GuardedInv tf (s.put k { s.table.clients k with calls } ⟨(s.guards k).guard, rest⟩) :=
          h.put_of_sublist (levels_release hframes) hrest hmem (h.inTx hframes)
        exact hput
      | @goOn events phase hp hne =>
        rw [guardAfter_of_goOn hp hne (by simp [AggregateTable.setClient])]
        refine h.leave (h.inTx hframes) (by rw [hcalls]; rfl) fun o' ho' => ?_
        obtain rfl | ho' := List.mem_cons.1 ho'
        · exact hown
        · exact hk.own o' (hmem o' ho')
      | @project e row hphase hrow happly =>
        rw [hphase] at hlock
        have hlock : ¬ s.LockedElsewhere k := fun hlocked => hlock ⟨rfl, hlocked⟩
        have hmove : tf.Moves (tf.valueOf (s.table.visibleRow k)) (tf.valueOf row) := by
          refine moves_of_apply happly fun changes previous hpayload value hvalue => ?_
          have hwritten : writtenValue ev tf o.phase = some value := by
            simp only [writtenValue, hphase, hpayload, hvalue]
          have hguarded := hok o (by rw [hcalls]; exact rfl) value hwritten
          obtain hsame | ⟨next, hnext, rfl⟩ := hguarded
          · rw [hsame]
            exact moves_refl _
          · obtain ⟨current, hcurrent, hallows⟩ := (hk.knows _ List.mem_cons_self).passed next hnext
            have hvisible : tf.valueOf (s.table.visibleRow k) = some current := hcurrent
            rw [hvisible]
            exact allows_moves hallows
        rw [hphase, guardAfter_of_project (by simp [AggregateTable.setClient])]
        rw [visibleRow_setClient rfl]
        refine h.write (h.inTx hframes) hrow hlock hmove (fun next hnext => ?_) (by rw [hcalls]; rfl) fun o' ho' => ?_
        · split at hnext
          · next hsame => exact ⟨hnext, hsame⟩
          · cases hnext
        · obtain rfl | ho' := List.mem_cons.1 ho'
          · exact hown
          · exact hk.own o' (hmem o' ho')

/-! ### Transactions -/

theorem GuardedInv.publish (h : GuardedInv tf s) :
    GuardedInv tf ⟨s.table.publish k [], s.values ++ (s.guards k).guard.written,
      Function.update s.guards k ⟨.empty, []⟩⟩ := by
  have hknows := (h.clients k).knows ((s.table.clients k).written, (s.guards k).guard) List.mem_cons_self
  have hcommitted : tf.Knows (s.values ++ (s.guards k).guard.written) (s.table.visibleRow k) .empty .empty :=
    ⟨fun _ hnext => (nomatch hnext), by rw [FieldGuard.empty, List.append_nil]; exact hknows.path,
      by rw [FieldGuard.empty, List.append_nil]; exact hknows.last, fun _ => rfl⟩
  have hother : ∀ j, j ≠ k → GuardedOk tf (s.values ++ (s.guards k).guard.written) (s.table.visibleRow k)
      (s.table.clients j) (s.guards j) := fun j hj => by
    have hk := h.clients j
    cases hrow : (s.table.clients k).written.row with
    | none =>
      have hvisible : s.table.visibleRow k = s.table.row := by rw [AggregateTable.visibleRow, hrow, Option.getD_none]
      rw [hknows.untouched hrow, List.append_nil, hvisible]
      exact hk
    | some row =>
      have hmine : Touches (s.table.clients k) (s.guards k) :=
        ⟨_, List.mem_cons_self, .inl (by rw [hrow]; rfl)⟩
      refine ⟨fun level hlevel => ?_, hk.rows, hk.verbs, hk.own, hk.idle⟩
      have hfree : level.1.row = none ∧ level.2.passed = [] := by
        have hnone := fun htouched => hj (h.alone ⟨level, hlevel, htouched⟩ hmine)
        obtain ⟨hunwritten, hunlocked⟩ := not_or.1 hnone
        exact ⟨by simpa using hunwritten, not_not.1 hunlocked⟩
      exact knows_of_committed hcommitted hfree.1 hfree.2 ((hk.knows level hlevel).untouched hfree.1)
  refine ⟨hcommitted, fun j => ?_, fun {i j} hi hj => ?_⟩
  · show GuardedOk _ _ _ (Function.update s.table.clients k _ j) (Function.update s.guards k _ j)
    by_cases hj : j = k
    · subst hj
      rw [Function.update_self, Function.update_self]
      exact guardedOk_closed hcommitted false
    · rw [Function.update_of_ne hj, Function.update_of_ne hj]
      exact hother j hj
  · change Touches (Function.update s.table.clients k _ i) (Function.update s.guards k _ i) at hi
    change Touches (Function.update s.table.clients k _ j) (Function.update s.guards k _ j) at hj
    have hne : ∀ {i}, Touches (Function.update s.table.clients k ⟨false, .empty, []⟩ i)
        (Function.update s.guards k ⟨.empty, []⟩ i) → i ≠ k := by
      rintro i htouch rfl
      rw [Function.update_self, Function.update_self] at htouch
      exact not_touches_closed _ _ htouch
    have hik := hne hi
    have hjk := hne hj
    rw [Function.update_of_ne hik, Function.update_of_ne hik] at hi
    rw [Function.update_of_ne hjk, Function.update_of_ne hjk] at hj
    exact h.alone hi hj

theorem GuardedInv.step [DecidableEq J] {a : GuardedAct J n} (h : GuardedInv tf s) (hok : FieldGuarded ev tf s a)
    (hs : ev.guardedStep tf s a = some s') : GuardedInv tf s' := by
  cases a with
  | begin k =>
    obtain ⟨table, htable, rfl⟩ := Option.map_eq_some_iff.1 hs
    simp only [EntityVerbs.step, Option.ite_none_left_eq_some, Option.some.injEq] at htable
    obtain ⟨hidle, rfl⟩ := htable
    have hempty := ((h.clients k).idle (by simpa using hidle)).1
    have hput : GuardedInv tf (s.put k ⟨true, .empty, []⟩ ⟨.empty, []⟩) := h.put_closed true
    rw [GuardedTable.put, ← hempty, Function.update_eq_self] at hput
    exact hput
  | commit k =>
    simp only [EntityVerbs.guardedStep] at hs
    split at hs
    · obtain ⟨table, htable, rfl⟩ := Option.map_eq_some_iff.1 hs
      simp only [EntityVerbs.step, Option.ite_none_right_eq_some, Option.some.injEq] at htable
      obtain ⟨-, rfl⟩ := htable
      exact h.publish
    · cases hs
  | rollback k =>
    simp only [EntityVerbs.guardedStep] at hs
    split at hs
    · obtain ⟨table, htable, rfl⟩ := Option.map_eq_some_iff.1 hs
      simp only [EntityVerbs.step, Option.ite_none_right_eq_some, Option.some.injEq] at htable
      obtain ⟨-, rfl⟩ := htable
      exact h.put_closed false
    · cases hs
  | dispatch k cmd =>
    simp only [EntityVerbs.guardedStep] at hs
    split at hs
    · next htx => exact h.dispatch htx hs
    · cases hs
  | settle k =>
    simp only [EntityVerbs.guardedStep] at hs
    split at hs
    · next hframes =>
      cases hs
      exact h.settle hframes
    · cases hs
  | fail k =>
    simp only [EntityVerbs.guardedStep] at hs
    split at hs
    · next hframes =>
      cases hs
      exact h.fail hframes
    · cases hs
  | call k c =>
    simp only [EntityVerbs.guardedStep] at hs
    split at hs
    · next hc =>
      obtain ⟨table, htable, rfl⟩ := Option.map_eq_some_iff.1 hs
      simp only [EntityVerbs.step, Option.ite_none_right_eq_some, Option.some.injEq] at htable
      obtain ⟨-, rfl⟩ := htable
      exact h.call hc.1
    · cases hs
  | run k now =>
    simp only [EntityVerbs.guardedStep] at hs
    split at hs
    · next hframes => exact h.run hframes hok hs
    · cases hs
  | error k =>
    simp only [EntityVerbs.guardedStep] at hs
    split at hs
    · next hframes =>
      obtain ⟨table, htable, rfl⟩ := Option.map_eq_some_iff.1 hs
      simp only [EntityVerbs.step] at htable
      split at htable
      · cases htable
      · next hcalls =>
        cases htable
        exact h.failVerb hframes hcalls
    · cases hs
  | archive tenantId | unarchive tenantId =>
    cases hs
    exact ⟨h.committed, h.clients, h.alone⟩

theorem guardedInv_initial : GuardedInv tf (.initial : GuardedTable J n) := by
  have hcommitted : tf.Knows [none] none (.empty : VerbTx J) .empty := by
    refine ⟨fun _ hnext => (nomatch hnext), ?_, rfl, fun _ => rfl⟩
    exact along_concat.2 ⟨along_nil, fun _ hlast => (nomatch hlast)⟩
  exact ⟨hcommitted, fun _ => guardedOk_closed hcommitted false,
    fun hj => absurd hj (not_touches_closed _ _)⟩

end Steps

/-! ## Main result -/

namespace EntityVerbs

/-- The values the field has had are a path of the declared graph that ends with the committed row. -/
theorem transitions_of_run [DecidableEq J] (ev : EntityVerbs J) (tf : TransitionField) (s : GuardedTable J n)
    (hr : Run (ev.guardedStep tf) (FieldGuarded ev tf) .initial s) :
    tf.Path s.values ∧ s.values.getLast? = some (tf.valueOf s.table.row) := by
  have h := (hr.invariant guardedInv_initial fun _ _ _ h hok hs => h.step hok hs).committed
  have hpath := h.path
  have hlast := h.last
  rw [FieldGuard.empty, List.append_nil] at hpath hlast
  exact ⟨hpath, hlast⟩

/-! ## An invoice that is sent, and one that loses its status -/

def invoiceStatus : TransitionField where
  name := "status"
  transitions := [(.of "draft", [.of "sent", .of "void"]), (.of "sent", [.of "paid"])]
  declared := by decide

/-- A command in a transaction of its own, whose handler calls one verb. -/
def invoiceCommand (cmd : WriteCommand Empty) (c : VerbCall Empty) (statements : ℕ) : List (GuardedAct Empty 1) :=
  [.begin 0, .dispatch 0 cmd, .call 0 c] ++ .replicate statements (.run 0 0) ++ [.settle 0, .commit 0]

def invoiceCreated : List (GuardedAct Empty 1) :=
  let call := ticketCall .create [("status", "draft")]
  invoiceCommand ⟨false, none, call.payload, none⟩ call 4

/-- The update of an entity's handler, with the status given. -/
def invoiceUpdated (status : FieldValue Empty) : List (GuardedAct Empty 1) :=
  let changes : EntityRow Empty := .ofColumns [("status", status)]
  invoiceCommand ⟨false, some "k1", .ofColumns [], some changes⟩
    { ticketCall .update [] with payload := changes, version := some 1 } 8

theorem transitions_of_run_sent : ∃ s : GuardedTable Empty 1,
    s.values = [none, some (.text (.of "draft")), some (.text (.of "sent"))] ∧
    invoiceStatus.Path s.values ∧ s.values.getLast? = some (invoiceStatus.valueOf s.table.row) := by
  obtain ⟨s, hr, hs⟩ := exists_run_of_execOk (ticketVerbs.guardedStep invoiceStatus)
    (fun s a => decide (FieldGuarded ticketVerbs invoiceStatus s a)) .initial
    (invoiceCreated ++ invoiceUpdated (.text (.of "sent")))
    (fun s => s.values = [none, some (.text (.of "draft")), some (.text (.of "sent"))])
    (fun _ _ h => of_decide_eq_true h) (by decide +kernel) (by decide +kernel)
  exact ⟨s, of_decide_eq_true hs, transitions_of_run ticketVerbs invoiceStatus s hr⟩

/-- The status is cleared: an empty value is none to the guard. -/
theorem not_transitions : ¬ ∀ s : GuardedTable Empty 1,
    Run (ticketVerbs.guardedStep invoiceStatus) NoneSkips .initial s → invoiceStatus.Path s.values := by
  intro h
  obtain ⟨s, hr, hs⟩ := exists_run_of_execOk (ticketVerbs.guardedStep invoiceStatus)
    (fun s a => decide (NoneSkips s a)) .initial (invoiceCreated ++ invoiceUpdated .null)
    (fun s => s.values = [none, some (.text (.of "draft")), some .null])
    (fun _ _ h => of_decide_eq_true h) (by decide +kernel) (by decide +kernel)
  have hpath := h s hr
  rw [of_decide_eq_true hs] at hpath
  have hmove := hpath [none, some (.text (.of "draft"))] (some .null) [] rfl _ rfl
  obtain hnone | hnone | hsame | ⟨_, _, -, hnext, -⟩ := hmove
  · cases hnone
  · cases hnone
  · cases hsame
  · cases hnext

end EntityVerbs

end Kumiko
