import Mathlib.Data.List.Nodup
import Mathlib.Order.Lattice

/-!
# Transactions and their snapshots

The transaction table of a multi-version database. A transaction claims an id (`Xacts.claim`) from a counter
that never goes back and later commits or rolls back. Every id below a snapshot's `xmin` has finished
(`Xacts.finished_of_le_xmin`), but one from its `xmax` on may be running: `xmax` is one past the highest id that
has completed. What others do between two statements of a party is `Xacts.Ext`.
-/

/-- The ids handed out so far and what became of them. -/
structure Xacts where
  /-- The next id to hand out. -/
  nextXid : ℕ
  /-- The ids of the transactions in progress. -/
  running : List ℕ
  /-- The ids of the transactions that committed. -/
  committed : List ℕ
  /-- The highest id whose transaction has completed. -/
  latestCompleted : ℕ

namespace Xacts

variable {t t' t'' : Xacts} {x y b : ℕ}

/-- No transaction yet. -/
def initial : Xacts := { nextXid := 1, running := [], committed := [], latestCompleted := 0 }

/-- Hand out the next id to a transaction that starts. -/
def claim (t : Xacts) : Xacts :=
  { t with nextXid := t.nextXid + 1, running := t.nextXid :: t.running }

/-- The transaction commits. -/
def commit (t : Xacts) (x : ℕ) : Xacts :=
  { t with running := t.running.erase x, committed := x :: t.committed,
           latestCompleted := max t.latestCompleted x }

/-- The transaction rolls back. -/
def abort (t : Xacts) (x : ℕ) : Xacts :=
  { t with running := t.running.erase x, latestCompleted := max t.latestCompleted x }

/-- One past the highest completed id: every id from here on is invisible to the snapshot. -/
def xmax (t : Xacts) : ℕ := t.latestCompleted + 1

/-- The oldest running id, or `xmax` when none below it is running. -/
def xmin (t : Xacts) : ℕ := t.running.foldr min t.xmax

/-- The running ids a snapshot lists: those below its `xmax`, without the reader's own id. -/
def xip (t : Xacts) (own : Option ℕ) : List ℕ :=
  t.running.filter fun x => x < t.xmax ∧ some x ≠ own

/-- The transaction is over and did not commit. -/
def Aborted (t : Xacts) (x : ℕ) : Prop := x < t.nextXid ∧ x ∉ t.running ∧ x ∉ t.committed

instance (t : Xacts) (x : ℕ) : Decidable (t.Aborted x) :=
  inferInstanceAs (Decidable (_ ∧ _ ∧ _))

/-- What every transaction table satisfies. -/
structure WF (t : Xacts) : Prop where
  /-- No transaction runs twice. -/
  nodup : t.running.Nodup
  /-- A running id was handed out. -/
  running_lt : ∀ x ∈ t.running, x < t.nextXid
  /-- A committed id was handed out. -/
  committed_lt : ∀ x ∈ t.committed, x < t.nextXid
  /-- A committed transaction no longer runs. -/
  disjoint : ∀ x ∈ t.committed, x ∉ t.running
  /-- A completed id was handed out. -/
  completed_lt : t.latestCompleted < t.nextXid

theorem initial_wf : initial.WF :=
  ⟨.nil, by simp [initial], by simp [initial], by simp [initial], by simp [initial]⟩

/-- A claim starts a transaction with a new id. -/
theorem WF.claim (h : t.WF) : t.claim.WF where
  nodup := List.nodup_cons.2 ⟨fun hm => Nat.lt_irrefl _ (h.running_lt _ hm), h.nodup⟩
  running_lt y hy := by
    cases hy with
    | head => exact Nat.lt_succ_self _
    | tail _ hy => exact Nat.lt_succ_of_lt (h.running_lt y hy)
  committed_lt y hy := Nat.lt_succ_of_lt (h.committed_lt y hy)
  disjoint y hy hr := by
    cases hr with
    | head => exact Nat.lt_irrefl _ (h.committed_lt _ hy)
    | tail _ hr => exact h.disjoint y hy hr
  completed_lt := Nat.lt_succ_of_lt h.completed_lt

/-- A commit ends a transaction that runs. -/
theorem WF.commit (h : t.WF) (hx : x ∈ t.running) : (t.commit x).WF where
  nodup := h.nodup.erase x
  running_lt y hy := h.running_lt y (List.mem_of_mem_erase hy)
  committed_lt y hy := by
    cases hy with
    | head => exact h.running_lt _ hx
    | tail _ hy => exact h.committed_lt y hy
  disjoint y hy hr := by
    cases hy with
    | head => exact h.nodup.not_mem_erase hr
    | tail _ hy => exact h.disjoint y hy (List.mem_of_mem_erase hr)
  completed_lt := max_lt h.completed_lt (h.running_lt x hx)

theorem WF.abort (h : t.WF) (hx : x ∈ t.running) : (t.abort x).WF where
  nodup := h.nodup.erase x
  running_lt y hy := h.running_lt y (List.mem_of_mem_erase hy)
  committed_lt := h.committed_lt
  disjoint y hy hr := h.disjoint y hy (List.mem_of_mem_erase hr)
  completed_lt := max_lt h.completed_lt (h.running_lt x hx)

/-! ## The bounds of a snapshot -/

/-- No running transaction is below `xmin`. -/
theorem xmin_le (h : x ∈ t.running) : t.xmin ≤ x := by
  suffices ∀ (l : List ℕ) (b : ℕ), x ∈ l → l.foldr min b ≤ x from this _ _ h
  intro l b h
  induction l with
  | nil => nomatch h
  | cons y l ih =>
    cases h with
    | head => exact min_le_left _ _
    | tail _ h => exact (min_le_right _ _).trans (ih h)

/-- A bound that `xmin` has reached: no id below it is running. -/
theorem finished_of_le_xmin (hb : b ≤ t.xmin) (hx : x < b) : x ∉ t.running :=
  fun h => Nat.lt_irrefl _ ((hx.trans_le hb).trans_le (xmin_le h))

/-! ## What the other parties may do -/

/-- The table has moved on: ids were claimed, running ones have finished, and what was finished
stays as it was. -/
structure Ext (t t' : Xacts) : Prop where
  /-- The counter never goes back. -/
  nextXid : t.nextXid ≤ t'.nextXid
  /-- A committed transaction stays committed. -/
  committed : ∀ x ∈ t.committed, x ∈ t'.committed
  /-- An id handed out before runs only if it ran before. -/
  running : ∀ x ∈ t'.running, x < t.nextXid → x ∈ t.running
  /-- A transaction that has committed since was running before or was claimed since. -/
  since : ∀ x ∈ t'.committed, x < t.nextXid → x ∈ t.committed ∨ x ∈ t.running

theorem Ext.refl (t : Xacts) : t.Ext t :=
  ⟨le_refl _, fun _ h => h, fun _ h _ => h, fun _ h _ => .inl h⟩

/-- What others do in two steps is what they may do. -/
theorem Ext.trans (h : t.Ext t') (h' : t'.Ext t'') : t.Ext t'' where
  nextXid := h.nextXid.trans h'.nextXid
  committed x hx := h'.committed x (h.committed x hx)
  running x hx hlt := h.running x (h'.running x hx (hlt.trans_le h.nextXid)) hlt
  since x hx hlt := by
    cases h'.since x hx (hlt.trans_le h.nextXid) with
    | inl hc => exact h.since x hc hlt
    | inr hr => exact .inr (h.running x hr hlt)

theorem ext_claim (t : Xacts) : t.Ext t.claim where
  nextXid := Nat.le_succ _
  committed _ hx := hx
  running x hx hlt := by
    cases hx with
    | head => exact absurd hlt (Nat.lt_irrefl _)
    | tail _ hx => exact hx
  since _ hx _ := .inl hx

theorem ext_commit (hx : x ∈ t.running) : t.Ext (t.commit x) where
  nextXid := le_refl _
  committed _ hy := .tail _ hy
  running _ hy _ := List.mem_of_mem_erase hy
  since y hy _ := by
    cases hy with
    | head => exact .inr hx
    | tail _ hy => exact .inl hy

theorem ext_abort (t : Xacts) (x : ℕ) : t.Ext (t.abort x) where
  nextXid := le_refl _
  committed _ hy := hy
  running _ hy _ := List.mem_of_mem_erase hy
  since _ hy _ := .inl hy

/-- A transaction that has rolled back stays so. -/
theorem Aborted.ext (ha : t.Aborted x) (h : t.Ext t') : t'.Aborted x := by
  obtain ⟨hlt, hr, hc⟩ := ha
  refine ⟨hlt.trans_le h.nextXid, fun hm => hr (h.running x hm hlt), fun hm => ?_⟩
  cases h.since x hm hlt with
  | inl hm => exact hc hm
  | inr hm => exact hr hm

/-- Every id handed out is running, committed or rolled back. -/
theorem trichotomy (h : x < t.nextXid) : x ∈ t.running ∨ x ∈ t.committed ∨ t.Aborted x := by
  by_cases hr : x ∈ t.running
  · exact .inl hr
  · by_cases hc : x ∈ t.committed
    · exact .inr (.inl hc)
    · exact .inr (.inr ⟨h, hr, hc⟩)

end Xacts
