import Mathlib.Algebra.BigOperators.Group.List.Basic
import Mathlib.Data.List.Nodup
import Mathlib.Tactic.Abel

/-!
# Rows with a unique key

A table as the list of its rows, each with a key of its own. A row is looked up, put in the place of the one with
its key, or deleted; a lookup of another key sees nothing of it. A sum over the rows changes by the row that
changes (`sum_put`, `sum_delete`).
-/

namespace KeyedRows

variable {R K M : Type*} [DecidableEq K] {key : R → K} {rows : List R} {row old : R} {k : K}

def lookup (key : R → K) (k : K) (rows : List R) : Option R := rows.find? (key · = k)

def put (key : R → K) (row : R) (rows : List R) : List R := rows.map fun r => if key r = key row then row else r

def delete (key : R → K) (k : K) (rows : List R) : List R := rows.filter (key · ≠ k)

theorem mem_of_lookup (h : lookup key k rows = some row) : row ∈ rows := List.mem_of_find?_eq_some h

theorem key_of_lookup (h : lookup key k rows = some row) : key row = k := by
  have hfound := List.find?_some h
  exact of_decide_eq_true hfound

/-- Nothing is found where no row has the key. -/
theorem lookup_eq_none : lookup key k rows = none ↔ ∀ r ∈ rows, key r ≠ k := by
  simp [lookup, List.find?_eq_none]

/-- The row with a key is found by it. -/
theorem lookup_of_mem (h : (rows.map key).Nodup) (hmem : row ∈ rows) : lookup key (key row) rows = some row := by
  cases hfound : lookup key (key row) rows with
  | none => exact absurd rfl (lookup_eq_none.1 hfound row hmem)
  | some r => rw [List.inj_on_of_nodup_map h (mem_of_lookup hfound) hmem (key_of_lookup hfound)]

/-- A row that is put keeps the keys as they are. -/
theorem map_put : (put key row rows).map key = rows.map key := by
  rw [put, List.map_map]
  refine List.map_congr_left fun r _ => ?_
  show key (if key r = key row then row else r) = key r
  split
  · next h => exact h.symm
  · rfl

theorem nodup_put (h : (rows.map key).Nodup) : ((put key row rows).map key).Nodup := by rwa [map_put]

theorem nodup_delete (h : (rows.map key).Nodup) : ((delete key k rows).map key).Nodup :=
  h.sublist (List.filter_sublist.map key)

theorem mem_put {r : R} (h : r ∈ put key row rows) : r = row ∨ r ∈ rows ∧ key r ≠ key row := by
  obtain ⟨x, hx, rfl⟩ := List.mem_map.1 h
  by_cases heq : key x = key row
  · rw [if_pos heq]; exact .inl rfl
  · rw [if_neg heq]; exact .inr ⟨hx, heq⟩

/-- What is left has another key. -/
theorem mem_delete {r : R} : r ∈ delete key k rows ↔ r ∈ rows ∧ key r ≠ k := by
  simp [delete, List.mem_filter]

/-- A lookup of another key sees nothing of the row. -/
theorem lookup_put_of_ne (h : key row ≠ k) : lookup key k (put key row rows) = lookup key k rows := by
  induction rows with
  | nil => rfl
  | cons r rows ih =>
    by_cases hr : key r = key row
    · rw [put, List.map_cons, if_pos hr, lookup, lookup, List.find?_cons_of_neg (by simpa using h),
        List.find?_cons_of_neg (by simpa [hr] using h)]
      exact ih
    · rw [put, List.map_cons, if_neg hr, lookup, lookup, List.find?_cons, List.find?_cons]
      split
      · rfl
      · exact ih

theorem lookup_delete_of_ne {k' : K} (h : k' ≠ k) : lookup key k (delete key k' rows) = lookup key k rows := by
  induction rows with
  | nil => rfl
  | cons r rows ih =>
    by_cases hr : key r = k'
    · rw [delete, List.filter_cons_of_neg (by simpa using hr)]
      rw [lookup, lookup, List.find?_cons_of_neg (by simpa [hr] using h)]
      exact ih
    · rw [delete, List.filter_cons_of_pos (by simpa using hr), lookup, lookup, List.find?_cons, List.find?_cons]
      split
      · rfl
      · exact ih

/-- A change that leaves the keys alone is seen by the lookups. -/
theorem lookup_map {f : R → R} (hf : ∀ r, key (f r) = key r) :
    lookup key k (rows.map f) = (lookup key k rows).map f := by
  rw [lookup, List.find?_map, lookup]
  simp only [Function.comp_def, hf]

/-- A key that is deleted is gone. -/
theorem lookup_delete_self : lookup key k (delete key k rows) = none :=
  lookup_eq_none.2 fun _ hr => (mem_delete.1 hr).2

/-- A new row is found under its key. -/
theorem lookup_append_self (h : lookup key (key row) rows = none) :
    lookup key (key row) (rows ++ [row]) = some row := by
  rw [lookup, List.find?_append, show rows.find? (key · = key row) = none from h, Option.none_or,
    List.find?_cons_of_pos (by simp)]

theorem lookup_append_of_ne (h : key row ≠ k) : lookup key k (rows ++ [row]) = lookup key k rows := by
  rw [lookup, List.find?_append, List.find?_cons_of_neg (by simpa using h), List.find?_nil, Option.or_none, lookup]

/-- A row that is put is found in place of the old one. -/
theorem lookup_put_self (h : (lookup key (key row) rows).isSome) :
    lookup key (key row) (put key row rows) = some row := by
  induction rows with
  | nil => cases h
  | cons r rows ih =>
    by_cases hr : key r = key row
    · rw [put, List.map_cons, if_pos hr, lookup, List.find?_cons_of_pos (by simp)]
    · rw [lookup, List.find?_cons_of_neg (by simpa using hr)] at h
      rw [put, List.map_cons, if_neg hr, lookup, List.find?_cons_of_neg (by simpa using hr)]
      exact ih h

/-- A row takes the place of the one with its key, or goes to the end. -/
def upsert (key : R → K) (row : R) (rows : List R) : List R :=
  if (lookup key (key row) rows).isSome then put key row rows else rows ++ [row]

/-- An upsert is found under its key. -/
theorem lookup_upsert_self : lookup key (key row) (upsert key row rows) = some row := by
  unfold upsert
  split
  · next h => exact lookup_put_self h
  · next h => exact lookup_append_self (Option.not_isSome_iff_eq_none.1 h)

theorem lookup_upsert_of_ne (h : key row ≠ k) : lookup key k (upsert key row rows) = lookup key k rows := by
  unfold upsert
  split
  · exact lookup_put_of_ne h
  · exact lookup_append_of_ne h

theorem nodup_upsert (h : (rows.map key).Nodup) : ((upsert key row rows).map key).Nodup := by
  unfold upsert
  split
  · exact nodup_put h
  · next hnone =>
    rw [List.map_append, List.map_singleton]
    refine h.append (List.nodup_singleton _) (List.disjoint_singleton.2 fun hmem => ?_)
    obtain ⟨r, hr, heq⟩ := List.mem_map.1 hmem
    exact lookup_eq_none.1 (Option.not_isSome_iff_eq_none.1 hnone) r hr heq

/-- Then the table has that row and those with another key. -/
theorem mem_upsert {r : R} : r ∈ upsert key row rows ↔ r = row ∨ r ∈ rows ∧ key r ≠ key row := by
  unfold upsert
  split
  · next h =>
    refine ⟨mem_put, fun hr => ?_⟩
    rcases hr with rfl | ⟨hr, hne⟩
    · exact mem_of_lookup (lookup_put_self h)
    · exact List.mem_map.2 ⟨r, hr, if_neg hne⟩
  · next h =>
    have hne := lookup_eq_none.1 (Option.not_isSome_iff_eq_none.1 h)
    rw [List.mem_append, List.mem_singleton]
    refine ⟨fun hr => hr.symm.imp_right fun hr => ⟨hr, hne r hr⟩, fun hr => hr.symm.imp_left (·.1)⟩

section Sums

variable [AddCommGroup M] {f : R → M}

/-- The place of a row among rows with keys of their own. -/
theorem exists_of_lookup (hnodup : (rows.map key).Nodup) (hold : lookup key k rows = some old) :
    ∃ l₁ l₂, rows = l₁ ++ old :: l₂ ∧ key old = k ∧ (∀ r ∈ l₁, key r ≠ k) ∧ ∀ r ∈ l₂, key r ≠ k := by
  obtain ⟨l₁, l₂, rfl⟩ := List.append_of_mem (mem_of_lookup hold)
  have hkey := key_of_lookup hold
  rw [List.map_append, List.map_cons, List.nodup_middle, List.nodup_cons, hkey, List.mem_append, not_or] at hnodup
  exact ⟨l₁, l₂, rfl, hkey, fun r hr hk => hnodup.1.1 (List.mem_map.2 ⟨r, hr, hk⟩),
    fun r hr hk => hnodup.1.2 (List.mem_map.2 ⟨r, hr, hk⟩)⟩

/-- A sum changes by the row that is replaced. -/
theorem sum_put (hnodup : (rows.map key).Nodup) (hold : lookup key (key row) rows = some old) :
    ((put key row rows).map f).sum = (rows.map f).sum - f old + f row := by
  obtain ⟨l₁, l₂, rfl, hkey, h₁, h₂⟩ := exists_of_lookup hnodup hold
  have hput {l : List R} (hl : ∀ r ∈ l, key r ≠ key row) : (l.map fun r => if key r = key row then row else r) = l :=
    (List.map_congr_left fun r hr => if_neg (hl r hr)).trans (List.map_id l)
  rw [put, List.map_append, List.map_cons, if_pos hkey, hput h₁, hput h₂]
  simp only [List.map_append, List.map_cons, List.sum_append, List.sum_cons]
  abel

/-- A sum loses the row that is deleted. -/
theorem sum_delete (hnodup : (rows.map key).Nodup) (hold : lookup key k rows = some old) :
    ((delete key k rows).map f).sum = (rows.map f).sum - f old := by
  obtain ⟨l₁, l₂, rfl, hkey, h₁, h₂⟩ := exists_of_lookup hnodup hold
  have hdelete {l : List R} (hl : ∀ r ∈ l, key r ≠ k) : l.filter (key · ≠ k) = l :=
    List.filter_eq_self.2 fun r hr => by simpa using hl r hr
  rw [delete, List.filter_append, List.filter_cons_of_neg (by simpa using hkey), hdelete h₁, hdelete h₂]
  simp only [List.map_append, List.map_cons, List.sum_append, List.sum_cons]
  abel

end Sums

end KeyedRows
