import Mathlib.Data.Nat.Digits.Defs

/-!
# Bits in groups

Digits of `w` bits are a number with a length. A reader that takes digits of `m` bits and writes digits of `n`
bits keeps that the digits written and the bits held are the digits read, cut elsewhere (`Regrouped`), so either
side follows from the other (`Regrouped.written_unique`, `Regrouped.read_unique`).
-/

namespace Kumiko.BitGroups

/-- The number whose digits of `w` bits are the list's, the most significant first. -/
def number (w : ℕ) (digits : List ℕ) : ℕ := Nat.ofDigits (2 ^ w) digits.reverse

variable {m n k k' p p' d : ℕ} {xs ys ds es : List ℕ}

@[simp] theorem number_nil : number m [] = 0 := by simp [number]

@[simp] theorem number_concat : number m (xs ++ [d]) = number m xs * 2 ^ m + d := by
  simp only [number, List.reverse_append, List.reverse_cons, List.reverse_nil, List.nil_append,
    List.cons_append, Nat.ofDigits_cons]
  ring

theorem number_inj (hm : m ≠ 0) (hl : xs.length = ys.length) (hx : ∀ x ∈ xs, x < 2 ^ m)
    (hy : ∀ y ∈ ys, y < 2 ^ m) (h : number m xs = number m ys) : xs = ys := by
  refine List.reverse_inj.1 (Nat.ofDigits_inj_of_len_eq (Nat.one_lt_two_pow hm) ?_ ?_ ?_ h)
  · simpa using hl
  · simpa using hx
  · simpa using hy

/-- A digit is shifted into a register of `w` bits: the bits held move up, whatever stood above them. -/
theorem shiftIn_mod {w v : ℕ} (hd : d < 2 ^ m) (hw : k + m ≤ w) :
    (v <<< m ||| d) % 2 ^ w % 2 ^ (k + m) = v % 2 ^ k * 2 ^ m + d := by
  have hlt : v % 2 ^ k * 2 ^ m + d < 2 ^ (k + m) := by
    have hv : v % 2 ^ k + 1 ≤ 2 ^ k := Nat.mod_lt v (Nat.two_pow_pos k)
    calc v % 2 ^ k * 2 ^ m + d < v % 2 ^ k * 2 ^ m + 2 ^ m := by omega
      _ = (v % 2 ^ k + 1) * 2 ^ m := by ring
      _ ≤ 2 ^ k * 2 ^ m := Nat.mul_le_mul_right _ hv
      _ = 2 ^ (k + m) := (Nat.pow_add 2 k m).symm
  have hsplit : v * 2 ^ m + d = 2 ^ (k + m) * (v / 2 ^ k) + (v % 2 ^ k * 2 ^ m + d) := by
    have hv := Nat.div_add_mod v (2 ^ k)
    calc v * 2 ^ m + d = (2 ^ k * (v / 2 ^ k) + v % 2 ^ k) * 2 ^ m + d := by rw [hv]
      _ = 2 ^ (k + m) * (v / 2 ^ k) + (v % 2 ^ k * 2 ^ m + d) := by rw [Nat.pow_add]; ring
  rw [Nat.mod_mod_of_dvd _ (Nat.pow_dvd_pow 2 hw), ← Nat.shiftLeft_add_eq_or_of_lt hd,
    Nat.shiftLeft_eq, hsplit, Nat.mul_add_mod, Nat.mod_eq_of_lt hlt]

/-- The digit that a register shows above its lowest `k` bits is the upper one of the bits held. -/
theorem shiftOut_and (v : ℕ) : v >>> k &&& (2 ^ n - 1) = v % 2 ^ (k + n) / 2 ^ k := by
  rw [Nat.shiftRight_eq_div_pow, Nat.and_two_pow_sub_one_eq_mod, Nat.pow_add,
    Nat.mod_mul_right_div_self]

/-- The digits read are the digits written and `k` more bits, which are those of `p`. -/
structure Regrouped (m n : ℕ) (read written : List ℕ) (k p : ℕ) : Prop where
  /-- No bit is lost or made up. -/
  length : m * read.length = n * written.length + k
  /-- The bits stand in their order. -/
  value : number m read = number n written * 2 ^ k + p
  /-- The bits held are `k` bits. -/
  held_lt : p < 2 ^ k
  /-- What is written is digits. -/
  digits : ∀ x ∈ written, x < 2 ^ n

namespace Regrouped

theorem nil : Regrouped m n [] [] 0 0 := ⟨by simp, by simp, by simp, by simp⟩

/-- One more digit is read. -/
theorem read (h : Regrouped m n ds xs k p) (hd : d < 2 ^ m) :
    Regrouped m n (ds ++ [d]) xs (k + m) (p * 2 ^ m + d) where
  length := by
    have := h.length
    rw [List.length_append, List.length_singleton, Nat.mul_add, Nat.mul_one]
    omega
  value := by
    rw [number_concat, h.value, Nat.pow_add]
    ring
  held_lt := by
    have hp : p + 1 ≤ 2 ^ k := h.held_lt
    calc p * 2 ^ m + d < p * 2 ^ m + 2 ^ m := by omega
      _ = (p + 1) * 2 ^ m := by ring
      _ ≤ 2 ^ k * 2 ^ m := Nat.mul_le_mul_right _ hp
      _ = 2 ^ (k + m) := (Nat.pow_add 2 k m).symm
  digits := h.digits

/-- A digit is written once enough bits are held. -/
theorem write (h : Regrouped m n ds xs (k + n) p) :
    Regrouped m n ds (xs ++ [p / 2 ^ k]) k (p % 2 ^ k) where
  length := by
    have := h.length
    rw [List.length_append, List.length_singleton, Nat.mul_add, Nat.mul_one]
    omega
  value := by
    rw [h.value, number_concat, Nat.pow_add]
    have hp := Nat.div_add_mod p (2 ^ k)
    calc number n xs * (2 ^ k * 2 ^ n) + p
        = number n xs * (2 ^ k * 2 ^ n) + (2 ^ k * (p / 2 ^ k) + p % 2 ^ k) := by rw [hp]
      _ = (number n xs * 2 ^ n + p / 2 ^ k) * 2 ^ k + p % 2 ^ k := by ring
  held_lt := Nat.mod_lt _ (Nat.two_pow_pos k)
  digits := by
    intro x hx
    rcases List.mem_append.1 hx with hx | hx
    · exact h.digits x hx
    · obtain rfl := List.mem_singleton.1 hx
      refine Nat.div_lt_of_lt_mul ?_
      rw [← Nat.pow_add]
      exact h.held_lt

/-- The bits held fill the upper part of one more digit; the regrouping is then one of the digits
written into the digits read, with the lower bits zero. -/
theorem pad (h : Regrouped m n ds xs k p) (hd : ∀ d ∈ ds, d < 2 ^ m) (hk : k ≤ n) :
    Regrouped n m (xs ++ [p * 2 ^ (n - k)]) ds (n - k) 0 where
  length := by
    have := h.length
    rw [List.length_append, List.length_singleton, Nat.mul_add, Nat.mul_one]
    omega
  value := by
    have hn : 2 ^ n = 2 ^ k * 2 ^ (n - k) := by rw [← Nat.pow_add, Nat.add_sub_cancel' hk]
    rw [number_concat, h.value, hn]
    ring
  held_lt := Nat.two_pow_pos _
  digits := hd

/-- With no bit held the regrouping goes both ways. -/
theorem symm (h : Regrouped m n ds xs 0 p) (hd : ∀ d ∈ ds, d < 2 ^ m) : Regrouped n m xs ds 0 0 where
  length := by have := h.length; omega
  value := by
    have hp : p = 0 := by simpa using h.held_lt
    have := h.value
    rw [hp] at this
    simpa using this.symm
  held_lt := by simp
  digits := hd

/-- What is written and held is determined by what is read. -/
theorem written_unique (h : Regrouped m n ds xs k p) (h' : Regrouped m n ds ys k' p') (hk : k < n)
    (hk' : k' < n) : xs = ys ∧ k = k' ∧ p = p' := by
  have hlen : n * xs.length + k = n * ys.length + k' := h.length.symm.trans h'.length
  have hl : xs.length = ys.length := by
    have := congrArg (· / n) hlen
    simpa [Nat.mul_add_div (Nat.zero_lt_of_lt hk), Nat.div_eq_of_lt hk, Nat.div_eq_of_lt hk'] using this
  obtain rfl : k = k' := by
    rw [hl] at hlen
    omega
  have hnum : number n xs * 2 ^ k + p = number n ys * 2 ^ k + p' := h.value.symm.trans h'.value
  obtain rfl : p = p' := by
    have := congrArg (· % 2 ^ k) hnum
    simpa only [Nat.mul_add_mod_self_right, Nat.mod_eq_of_lt h.held_lt, Nat.mod_eq_of_lt h'.held_lt]
      using this
  have hx : number n xs = number n ys :=
    Nat.eq_of_mul_eq_mul_right (Nat.two_pow_pos k) (Nat.add_right_cancel hnum)
  exact ⟨number_inj (by omega) hl h.digits h'.digits hx, rfl, rfl⟩

/-- What is read is determined by what is written, when the bits held are zero and too few for a
digit of their own. -/
theorem read_unique (h : Regrouped m n ds xs k 0) (h' : Regrouped m n es xs k' 0) (hk : k < m)
    (hk' : k' < m) (hd : ∀ d ∈ ds, d < 2 ^ m) (he : ∀ e ∈ es, e < 2 ^ m) : ds = es := by
  have h₁ := h.length
  have h₂ := h'.length
  have hl : ds.length = es.length := by
    rcases Nat.lt_trichotomy ds.length es.length with hlt | heq | hlt
    · have := Nat.mul_le_mul_left m (Nat.succ_le_of_lt hlt)
      rw [Nat.mul_succ] at this
      omega
    · exact heq
    · have := Nat.mul_le_mul_left m (Nat.succ_le_of_lt hlt)
      rw [Nat.mul_succ] at this
      omega
  obtain rfl : k = k' := by
    rw [hl] at h₁
    omega
  exact number_inj (by omega) hl hd he (h.value.trans h'.value.symm)

end Regrouped

end Kumiko.BitGroups
