import Mathlib.Data.List.Nodup
import Mathlib.Data.List.Pairwise

/-!
# Reading a sorted list in pages, by the last element of each page

A reader fetches at most `n` elements, makes a *cursor* from the last one and next asks for what lies after it.
`Walk` is this loop on a list `S`, for any cursors. It hands out `S` itself exactly when at the end of every
full page the cursor lies between the elements of `S` as the element does (`walk_exact_iff`): the elements after
a cursor are a tail of `S` (`filter_eq_drop`), so no error cancels another.
-/

namespace Kumiko

section Tails

variable {α : Type*} {r : α → α → Prop} {S : List α}

/-- Along a sorted list, a condition that persists upward selects a tail. -/
theorem filter_eq_drop (hS : S.Pairwise r) {p : α → Bool}
    (hup : ∀ y z, r y z → p y = true → p z = true) : ∃ j, S.filter p = S.drop j := by
  induction S with
  | nil => exact ⟨0, rfl⟩
  | cons x xs ih =>
    obtain ⟨hx, hxs⟩ := List.pairwise_cons.mp hS
    cases hp : p x with
    | true =>
      refine ⟨0, List.filter_eq_self.mpr ?_⟩
      intro y hy
      rcases List.mem_cons.mp hy with rfl | hy
      · exact hp
      · exact hup x y (hx y hy) hp
    | false =>
      obtain ⟨j, hj⟩ := ih hxs
      exact ⟨j + 1, by rw [List.filter_cons_of_neg (by simp [hp]), hj, List.drop_succ_cons]⟩

/-- The elements after the one at position `i` are those the order puts after it. -/
theorem mem_drop_iff (hS : S.Pairwise r) (hirr : ∀ a, ¬ r a a)
    (htrans : ∀ a b c, r a b → r b c → r a c) {i : ℕ} {x y : α} (hx : S[i]? = some x) (hy : y ∈ S) :
    y ∈ S.drop (i + 1) ↔ r x y := by
  obtain ⟨hi, rfl⟩ := List.getElem?_eq_some_iff.mp hx
  obtain ⟨j, hj, rfl⟩ := List.getElem_of_mem hy
  rw [List.pairwise_iff_getElem] at hS
  constructor
  · intro hmem
    obtain ⟨k, hk, hkj⟩ := List.getElem_of_mem hmem
    rw [List.getElem_drop] at hkj
    rw [← hkj]
    exact hS i (i + 1 + k) hi (by rw [List.length_drop] at hk; omega) (by omega)
  · intro hr
    have hij : i < j := by
      rcases Nat.lt_trichotomy i j with hlt | rfl | hgt
      · exact hlt
      · exact (hirr _ hr).elim
      · exact (hirr _ (htrans _ _ _ hr (hS j i hj hi hgt))).elim
    rw [List.mem_drop_iff_getElem]
    exact ⟨j - (i + 1), by omega, by congr 1; omega⟩

/-- A condition that agrees with "after the element at position `i`" selects the tail behind it. -/
theorem filter_eq_drop_of_iff (hS : S.Pairwise r) (hirr : ∀ a, ¬ r a a)
    (htrans : ∀ a b c, r a b → r b c → r a c) {p : α → Bool} {i : ℕ} {x : α} (hx : S[i]? = some x)
    (hp : ∀ y ∈ S, p y = true ↔ r x y) : S.filter p = S.drop (i + 1) := by
  obtain ⟨hi, rfl⟩ := List.getElem?_eq_some_iff.mp hx
  have hbefore : (S.take (i + 1)).filter p = [] := by
    rw [List.filter_eq_nil_iff]
    intro y hy hpy
    have hr := (hp y (List.mem_of_mem_take hy)).mp hpy
    have hmem := (mem_drop_iff hS hirr htrans hx (List.mem_of_mem_take hy)).mpr hr
    have hdisj := (List.pairwise_append.mp ((List.take_append_drop (i + 1) S).symm ▸ hS)).2.2
    exact hirr y (hdisj y hy y hmem)
  have hafter : (S.drop (i + 1)).filter p = S.drop (i + 1) := by
    rw [List.filter_eq_self]
    intro y hy
    have hyS := List.mem_of_mem_drop hy
    exact (hp y hyS).mpr ((mem_drop_iff hS hirr htrans hx hyS).mp hy)
  calc S.filter p = (S.take (i + 1) ++ S.drop (i + 1)).filter p := by rw [List.take_append_drop]
    _ = S.drop (i + 1) := by rw [List.filter_append, hbefore, hafter, List.nil_append]

/-- Two tails of a list without repetition that begin alike are the same tail. -/
theorem drop_eq_of_getElem? (hS : S.Nodup) {i j : ℕ} (h : S[i]? = S[j]?) : S.drop i = S.drop j := by
  rcases Nat.lt_or_ge i S.length with hi | hi
  · rw [List.getElem?_eq_getElem hi] at h
    obtain ⟨hj, heq⟩ := List.getElem?_eq_some_iff.mp h.symm
    rw [(List.Nodup.getElem_inj_iff hS).mp heq]
  · rw [List.getElem?_eq_none hi] at h
    rw [List.drop_eq_nil_of_le hi, List.drop_eq_nil_of_le (List.getElem?_eq_none_iff.mp h.symm)]

end Tails

section Walks

variable {α κ : Type*}

/-- The pages a reader gets: `Walk S n after cursorAt xs pages` starts at a request that selects `xs`. A
page that is not full ends the walk; behind a full one the next request selects what lies after the cursor
of its last element, and a walk whose cursor cannot be made gets nowhere. -/
inductive Walk (S : List α) (n : ℕ) (after : κ → α → Bool) (cursorAt : α → Option κ) :
    List α → List (List α) → Prop
  | last {xs : List α} : xs.length < n → Walk S n after cursorAt xs [xs]
  | more {xs : List α} {x : α} {c : κ} {pages : List (List α)} : xs[n - 1]? = some x →
      cursorAt x = some c → Walk S n after cursorAt (S.filter (after c)) pages →
      Walk S n after cursorAt xs (xs.take n :: pages)

variable {S : List α} {n : ℕ} {after : κ → α → Bool} {cursorAt : α → Option κ}

/-- A walk begins with the first element its request selects. -/
theorem Walk.head {xs : List α} {pages : List (List α)} (h : Walk S n after cursorAt xs pages)
    (hn : 0 < n) : pages.flatten[0]? = xs[0]? := by
  cases h with
  | last _ => simp
  | more hx _ _ =>
    obtain ⟨hlt, -⟩ := List.getElem?_eq_some_iff.mp hx
    rw [List.flatten_cons, List.getElem?_append_left (by rw [List.length_take]; omega),
      List.getElem?_take_of_lt hn]

variable {r : α → α → Prop}

/-- The cursor made at a page's end stands where the element stands. -/
def CursorsFaithful (S : List α) (n : ℕ) (after : κ → α → Bool) (cursorAt : α → Option κ)
    (r : α → α → Prop) : Prop :=
  ∀ k x, S[k * n + (n - 1)]? = some x → ∃ c, cursorAt x = some c ∧ ∀ y ∈ S, after c y = true ↔ r x y

theorem CursorsFaithful.walk (hS : S.Pairwise r) (hirr : ∀ a, ¬ r a a)
    (htrans : ∀ a b c, r a b → r b c → r a c) (hn : 0 < n)
    (h : CursorsFaithful S n after cursorAt r) (k : ℕ) :
    ∃ pages, Walk S n after cursorAt (S.drop (k * n)) pages ∧ pages.flatten = S.drop (k * n) := by
  rcases Nat.lt_or_ge (S.drop (k * n)).length n with hshort | hfull
  · exact ⟨[S.drop (k * n)], .last hshort, by simp⟩
  · rw [List.length_drop] at hfull
    have hend : k * n + (n - 1) < S.length := by omega
    have hx := List.getElem?_eq_getElem hend
    obtain ⟨c, hc, hafter⟩ := h k _ hx
    have htail : S.filter (after c) = S.drop ((k + 1) * n) := by
      rw [filter_eq_drop_of_iff hS hirr htrans hx hafter]
      congr 1
      rw [Nat.succ_mul]
      omega
    have hmeasure : S.length - (k + 1) * n < S.length - k * n := by
      rw [Nat.succ_mul]
      omega
    obtain ⟨pages, hwalk, hpages⟩ := CursorsFaithful.walk hS hirr htrans hn h (k + 1)
    refine ⟨(S.drop (k * n)).take n :: pages, .more ?_ hc (htail ▸ hwalk), ?_⟩
    · rw [List.getElem?_drop, hx]
    · rw [List.flatten_cons, hpages, Nat.succ_mul, ← List.drop_drop, List.take_append_drop]
termination_by S.length - k * n

/-- A walk that hands out the tail it starts at used a faithful cursor at each of its page ends. -/
theorem Walk.faithful (hS : S.Pairwise r) (hirr : ∀ a, ¬ r a a)
    (htrans : ∀ a b c, r a b → r b c → r a c) (hn : 0 < n)
    (hup : ∀ c y z, r y z → after c y = true → after c z = true)
    {xs : List α} {pages : List (List α)} (h : Walk S n after cursorAt xs pages) {i : ℕ}
    (hxs : xs = S.drop i) (hpages : pages.flatten = S.drop i) {k : ℕ} {x : α}
    (hx : S[i + k * n + (n - 1)]? = some x) :
    ∃ c, cursorAt x = some c ∧ ∀ y ∈ S, after c y = true ↔ r x y := by
  have hnodup : S.Nodup := hS.imp fun hab => by rintro rfl; exact hirr _ hab
  induction h generalizing i k with
  | last hshort =>
    obtain ⟨hlt, -⟩ := List.getElem?_eq_some_iff.mp hx
    rw [hxs, List.length_drop] at hshort
    omega
  | @more xs x' c pages hx' hc hwalk ih =>
    subst hxs
    rw [List.getElem?_drop] at hx'
    have hrest : pages.flatten = S.drop (i + n) := by
      have hsplit := List.take_append_drop n (S.drop i)
      rw [List.drop_drop] at hsplit
      exact List.append_cancel_left (hpages.trans hsplit.symm)
    -- the next request starts with the element behind this page, so it selects the tail behind it
    have htail : S.filter (after c) = S.drop (i + n) := by
      obtain ⟨j, hj⟩ := filter_eq_drop hS (hup c)
      have hhead := hwalk.head hn
      rw [hrest, hj, List.getElem?_drop, List.getElem?_drop] at hhead
      rw [hj]
      exact drop_eq_of_getElem? hnodup (by simpa using hhead.symm)
    cases k with
    | zero =>
      obtain rfl : x' = x := by simpa [hx'] using hx
      refine ⟨c, hc, fun y hy => ?_⟩
      have hdrop := mem_drop_iff hS hirr htrans hx' hy
      rw [show i + (n - 1) + 1 = i + n by omega, ← htail, List.mem_filter] at hdrop
      exact ⟨fun ha => hdrop.mp ⟨hy, ha⟩, fun hr => (hdrop.mpr hr).2⟩
    | succ k =>
      refine ih htail hrest (k := k) ?_
      rw [← hx, Nat.succ_mul]
      congr 1
      omega

/-- **A walk over a sorted list hands out exactly that list if and only if its cursors are faithful.** -/
theorem walk_exact_iff (hS : S.Pairwise r) (hirr : ∀ a, ¬ r a a)
    (htrans : ∀ a b c, r a b → r b c → r a c) (hn : 0 < n)
    (hup : ∀ c y z, r y z → after c y = true → after c z = true) :
    (∃ pages, Walk S n after cursorAt S pages ∧ pages.flatten = S) ↔
      CursorsFaithful S n after cursorAt r := by
  constructor
  · rintro ⟨pages, hwalk, hpages⟩ k x hx
    exact hwalk.faithful hS hirr htrans hn hup (i := 0) rfl hpages (by rwa [Nat.zero_add])
  · intro h
    simpa using CursorsFaithful.walk hS hirr htrans hn h 0

end Walks

end Kumiko
