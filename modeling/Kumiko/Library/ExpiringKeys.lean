import Mathlib.Data.Int.Notation
import Mathlib.Logic.Function.Basic

/-!
# Keys that expire

A store of keys, each with a value and the moment it expires at. A key that has expired is not there, and the next
write takes its place. A write under the condition that the key is not there (`setNx`) succeeds once in the lifetime
of what it has written (`setNx_eq_none`).
-/

namespace ExpiringKeys

variable {κ ν : Type*} [DecidableEq κ]

/-- What the store holds for a key, with the moment it expires at. -/
abbrev Store (κ ν : Type*) := κ → Option (ν × ℤ)

/-- The value of a key that has not expired. -/
def get (now : ℤ) (store : Store κ ν) (k : κ) : Option ν :=
  (store k).bind fun e => if now < e.2 then some e.1 else none

def set (store : Store κ ν) (k : κ) (v : ν) (expiry : ℤ) : Store κ ν := Function.update store k (some (v, expiry))

def del (store : Store κ ν) (k : κ) : Store κ ν := Function.update store k none

/-- A write that is refused where the key is there. -/
def setNx (now : ℤ) (store : Store κ ν) (k : κ) (v : ν) (expiry : ℤ) : Option (Store κ ν) :=
  if (get now store k).isSome then none else some (set store k v expiry)

variable {now : ℤ} {store store' : Store κ ν} {k k' : κ} {v : ν} {expiry : ℤ}

omit [DecidableEq κ] in
theorem get_of_lt (h : store k = some (v, expiry)) (hlt : now < expiry) : get now store k = some v := by
  rw [get, h, Option.bind_some, if_pos hlt]

omit [DecidableEq κ] in
/-- A key that is there is what the store holds, before it expires. -/
theorem get_eq_some : get now store k = some v ↔ ∃ expiry, store k = some (v, expiry) ∧ now < expiry := by
  constructor
  · intro h
    obtain ⟨⟨w, expiry⟩, hentry, hget⟩ := Option.bind_eq_some_iff.1 h
    dsimp only at hget
    split at hget
    · next hlt =>
      cases hget
      exact ⟨expiry, hentry, hlt⟩
    · cases hget
  · rintro ⟨expiry, hentry, hlt⟩
    exact get_of_lt hentry hlt

omit [DecidableEq κ] in
/-- What is not there holds nothing, or has expired. -/
theorem not_lt_of_get_eq_none (h : get now store k = none) (hentry : store k = some (v, expiry)) : ¬now < expiry := by
  intro hlt
  rw [get_of_lt hentry hlt] at h
  cases h

theorem setNx_eq_none {w : ν} {e : ℤ} (h : store k = some (v, expiry)) (hlt : now < expiry) :
    setNx now store k w e = none := by
  rw [setNx, get_of_lt h hlt, Option.isSome_some, if_pos rfl]

theorem setNx_eq_some (h : setNx now store k v expiry = some store') :
    get now store k = none ∧ store' = set store k v expiry := by
  unfold setNx at h
  cases hget : get now store k with
  | some w => rw [hget] at h; cases h
  | none => rw [hget] at h; exact ⟨rfl, (Option.some.inj h).symm⟩

theorem set_self : set store k v expiry k = some (v, expiry) := Function.update_self ..

theorem set_of_ne (h : k' ≠ k) : set store k v expiry k' = store k' := Function.update_of_ne h ..

theorem del_self : del store k k = none := Function.update_self ..

theorem del_of_ne (h : k' ≠ k) : del store k k' = store k' := Function.update_of_ne h ..

/-- What is there after a deletion was there before it. -/
theorem of_del {w : ν × ℤ} (h : del store k k' = some w) : k' ≠ k ∧ store k' = some w := by
  rcases eq_or_ne k' k with rfl | hne
  · rw [del_self] at h
    cases h
  · rw [del_of_ne hne] at h
    exact ⟨hne, h⟩

/-- A conditional write leaves every other key that has not expired. -/
theorem setNx_keeps (h : setNx now store k v expiry = some store') {w : ν} {e : ℤ} (hk : store k' = some (w, e))
    (hlt : now < e) : store' k' = some (w, e) := by
  rcases eq_or_ne k' k with rfl | hne
  · rw [setNx_eq_none hk hlt] at h
    cases h
  · rw [(setNx_eq_some h).2, set_of_ne hne, hk]

end ExpiringKeys
