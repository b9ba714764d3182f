import Mathlib.Data.List.Basic
import Mathlib.Tactic.Ring

/-!
# Bytes at offsets

A buffer is a list that is set and read at offsets. A range that is set reads back what was set, and one beside
it what it read before (`slice?_put_of_le`). A number stands in its field modulo the width,
the least significant byte first (`getNumber_putNumber`).
-/

namespace Kumiko.ByteBuffers

section
variable {α : Type*} {buf a b c bs : List α} {off i n : ℕ}

/-- Overwrites the items from `off` on; what would stand behind the end is left out. -/
def put (buf : List α) (off : ℕ) (bs : List α) : List α :=
  buf.mapIdx fun i x => if off ≤ i then bs[i - off]?.getD x else x

/-- The `n` items from `off` on. -/
def slice? (buf : List α) (off n : ℕ) : Option (List α) :=
  if off + n ≤ buf.length then some ((buf.drop off).take n) else none

@[simp] theorem length_put : (put buf off bs).length = buf.length := by simp [put]

theorem length_of_slice? (h : slice? buf off n = some bs) : bs.length = n := by
  unfold slice? at h
  split at h
  · cases h
    rw [List.length_take, List.length_drop]
    omega
  · cases h

theorem slice?_eq_some (h : off + n ≤ buf.length) : slice? buf off n = some ((buf.drop off).take n) := if_pos h

@[simp] theorem slice?_zero (h : off ≤ buf.length) : slice? buf off 0 = some [] := by
  rw [slice?_eq_some h, List.take_zero]

/-- Two ranges of one length read the same where their items are the same. -/
theorem slice?_congr {buf' : List α} {off' : ℕ} (hl : off + n ≤ buf.length ↔ off' + n ≤ buf'.length)
    (h : ∀ k < n, buf[off + k]? = buf'[off' + k]?) : slice? buf off n = slice? buf' off' n := by
  unfold slice?
  by_cases hle : off + n ≤ buf.length
  · rw [if_pos hle, if_pos (hl.1 hle)]
    congr 1
    refine List.ext_getElem? fun k => ?_
    simp only [List.getElem?_take, List.getElem?_drop]
    split
    · exact h k ‹_›
    · rfl
  · rw [if_neg hle, if_neg (mt hl.2 hle)]

/-- What is set is read. -/
theorem slice?_put (h : off + bs.length ≤ buf.length) : slice? (put buf off bs) off bs.length = some bs := by
  rw [slice?_eq_some (by rwa [length_put])]
  congr 1
  refine List.ext_getElem? fun k => ?_
  simp only [List.getElem?_take, List.getElem?_drop, put, List.getElem?_mapIdx]
  split
  · rename_i hk
    have hoff : off + k < buf.length := by omega
    simp [List.getElem?_eq_getElem hoff, hk]
  · rename_i hk
    exact (List.getElem?_eq_none (not_lt.1 hk)).symm

/-- Setting a range leaves what stands before it. -/
theorem slice?_put_of_le (h : i + n ≤ off) : slice? (put buf off bs) i n = slice? buf i n := by
  refine slice?_congr (by rw [length_put]) fun k hk => ?_
  have hlt : ¬ off ≤ i + k := by omega
  simp [put, List.getElem?_mapIdx, hlt]

/-- What is set behind a prefix extends it. -/
theorem take_put (h : off + bs.length ≤ buf.length) :
    (put buf off bs).take (off + bs.length) = buf.take off ++ bs := by
  have hlen : (buf.take off).length = off := by
    rw [List.length_take]
    omega
  refine List.ext_getElem? fun k => ?_
  simp only [List.getElem?_take, put, List.getElem?_mapIdx, List.getElem?_append, hlen]
  by_cases hk : k < off
  · have hlt : ¬ off ≤ k := by omega
    simp [hk, hlt, show k < off + bs.length by omega]
  · by_cases hb : k < off + bs.length
    · have hlt : k - off < bs.length := by omega
      simp [hk, hb, not_lt.1 hk, List.getElem?_eq_getElem (show k < buf.length by omega), List.getElem?_eq_getElem hlt]
    · have hnone : bs[k - off]? = none := List.getElem?_eq_none (by omega)
      simp [hk, hb, hnone]

/-- A range of the middle part of a buffer. -/
theorem slice?_append_append (h : off + n ≤ b.length) :
    slice? (a ++ b ++ c) (a.length + off) n = slice? b off n := by
  refine slice?_congr (by simp only [List.length_append]; omega) fun k hk => ?_
  rw [List.append_assoc, Nat.add_assoc, List.getElem?_append_right (Nat.le_add_right _ _), Nat.add_sub_cancel_left,
    List.getElem?_append_left (by omega)]

/-- The middle part itself. -/
theorem slice?_append_self : slice? (a ++ b ++ c) a.length b.length = some b := by
  have h : slice? (a ++ b ++ c) (a.length + 0) b.length = slice? b 0 b.length :=
    slice?_append_append (Nat.le_of_eq (Nat.zero_add b.length))
  rw [Nat.add_zero] at h
  rw [h, slice?_eq_some (Nat.le_of_eq (Nat.zero_add b.length)), List.drop_zero, List.take_length]

end

/-! ## Numbers -/

/-- The lowest `w` bytes of a number, the least significant first. -/
def leBytes : ℕ → ℕ → List UInt8
  | 0, _ => []
  | w + 1, n => UInt8.ofNat n :: leBytes w (n / 256)

/-- The number whose bytes these are. -/
def leNumber : List UInt8 → ℕ
  | [] => 0
  | b :: bs => b.toNat + 256 * leNumber bs

variable {buf a b c bs : List UInt8} {off i m n w v : ℕ}

@[simp] theorem length_leBytes : (leBytes w n).length = w := by
  induction w generalizing n with
  | zero => rfl
  | succ w ih => rw [leBytes, List.length_cons, ih]

theorem leNumber_leBytes : leNumber (leBytes w n) = n % 256 ^ w := by
  induction w generalizing n with
  | zero => rw [leBytes, leNumber, Nat.pow_zero, Nat.mod_one]
  | succ w ih =>
    rw [leBytes, leNumber, ih, Nat.pow_succ', Nat.mod_mul]
    rfl

theorem leNumber_lt : leNumber bs < 256 ^ bs.length := by
  induction bs with
  | nil => decide
  | cons b bs ih =>
    rw [leNumber, List.length_cons, Nat.pow_succ']
    have := b.toNat_lt
    omega

/-- The number in the field of `w` bytes at `off`. -/
def getNumber (buf : List UInt8) (off w : ℕ) : Option ℕ := (slice? buf off w).map leNumber

/-- Sets the field of `w` bytes at `off`. -/
def putNumber (buf : List UInt8) (off w n : ℕ) : List UInt8 := put buf off (leBytes w n)

@[simp] theorem length_putNumber : (putNumber buf off w n).length = buf.length := length_put

theorem getNumber_eq_none : getNumber buf off w = none ↔ buf.length < off + w := by
  unfold getNumber slice?
  split <;> simp <;> omega

theorem getNumber_lt (h : getNumber buf off w = some v) : v < 256 ^ w := by
  obtain ⟨bs, hbs, rfl⟩ := Option.map_eq_some_iff.1 h
  rw [← length_of_slice? hbs]
  exact leNumber_lt

/-- A field holds a number modulo its width. -/
theorem getNumber_putNumber (h : off + w ≤ buf.length) :
    getNumber (putNumber buf off w n) off w = some (n % 256 ^ w) := by
  have hput : slice? (put buf off (leBytes w n)) off (leBytes w n).length = some (leBytes w n) :=
    slice?_put (by rwa [length_leBytes])
  rw [length_leBytes] at hput
  rw [getNumber, putNumber, hput, Option.map_some, leNumber_leBytes]

theorem getNumber_put_of_le (h : i + m ≤ off) : getNumber (put buf off bs) i m = getNumber buf i m := by
  rw [getNumber, getNumber, slice?_put_of_le h]

theorem getNumber_putNumber_of_le (h : i + m ≤ off) : getNumber (putNumber buf off w n) i m = getNumber buf i m :=
  getNumber_put_of_le h

theorem getNumber_append_append (h : off + w ≤ b.length) :
    getNumber (a ++ b ++ c) (a.length + off) w = getNumber b off w := by
  rw [getNumber, getNumber, slice?_append_append h]

end Kumiko.ByteBuffers
