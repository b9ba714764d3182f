import Mathlib.Algebra.Ring.Nat
import Mathlib.Data.List.Basic
import Mathlib.Logic.Function.Iterate

/-!
# Cyclic redundancy checks

The shift register of a reflected polynomial (`step`). The step is linear (`step_xor`), so the bits of a word
may be added before the steps (`foldl_shiftIn`), and the steps of the low bits are a table's entry
(`iterate_step`).
-/

namespace Kumiko.Crc

variable {w n i : ℕ} {x y poly : BitVec w} {b : Bool} {bs : List Bool}

/-- The register without an input. -/
def step (poly x : BitVec w) : BitVec w := if x.getLsbD 0 then poly ^^^ (x >>> 1) else x >>> 1

/-- The word whose lowest bit is `b`, the others zero. -/
def ofBit (w : ℕ) (b : Bool) : BitVec w := if b then 1 else 0

/-- A bit of the message enters. -/
def shiftIn (poly x : BitVec w) (b : Bool) : BitVec w := step poly (x ^^^ ofBit w b)

/-- The word with these bits, the lowest one first. -/
def ofBits (w : ℕ) : List Bool → BitVec w
  | [] => 0
  | b :: bs => ofBit w b ^^^ ofBits w bs <<< 1

theorem step_xor : step poly (x ^^^ y) = step poly x ^^^ step poly y := by
  unfold step
  rw [BitVec.getLsbD_xor, BitVec.ushiftRight_xor_distrib]
  cases x.getLsbD 0 <;> cases y.getLsbD 0 <;>
    simp only [Bool.xor_false, Bool.xor_true, Bool.not_true, Bool.not_false, Bool.false_eq_true, if_true, if_false]
  · rw [← BitVec.xor_assoc, ← BitVec.xor_assoc, BitVec.xor_comm (x >>> 1)]
  · rw [BitVec.xor_assoc]
  · rw [BitVec.xor_comm poly (y >>> 1), ← BitVec.xor_assoc, BitVec.xor_assoc poly, BitVec.xor_comm poly,
      BitVec.xor_assoc, BitVec.xor_self, BitVec.xor_zero]

theorem iterate_step_xor : (step poly)^[n] (x ^^^ y) = (step poly)^[n] x ^^^ (step poly)^[n] y := by
  induction n generalizing x y with
  | zero => rfl
  | succ n ih => rw [Function.iterate_succ_apply, step_xor, ih, Function.iterate_succ_apply,
      Function.iterate_succ_apply]

/-- While zeros fall out, the register only moves down. -/
theorem iterate_step_of_zeros (h : ∀ i < n, x.getLsbD i = false) : (step poly)^[n] x = x >>> n := by
  induction n with
  | zero => simp
  | succ n ih =>
    have hlast : (x >>> n).getLsbD 0 = false := by
      rw [BitVec.getLsbD_ushiftRight]
      exact h n (Nat.lt_succ_self n)
    rw [Function.iterate_succ_apply', ih fun i hi => h i (Nat.lt_succ_of_lt hi), step, hlast, BitVec.shiftRight_add]
    rfl

/-- The mask of the lowest `n` bits. -/
def mask (w n : ℕ) : BitVec w := BitVec.ofNat w (2 ^ n - 1)

theorem getLsbD_mask : (mask w n).getLsbD i = (decide (i < w) && decide (i < n)) := by
  rw [mask, BitVec.getLsbD_ofNat, Nat.testBit_two_pow_sub_one]

/-- The steps of the lowest bits, and the bits above them moved down. -/
theorem iterate_step : (step poly)^[n] x = (step poly)^[n] (x &&& mask w n) ^^^ x >>> n := by
  have hsplit : x = (x &&& mask w n) ^^^ (x &&& ~~~mask w n) := by
    refine BitVec.eq_of_getLsbD_eq fun i hi => ?_
    simp only [BitVec.getLsbD_xor, BitVec.getLsbD_and, BitVec.getLsbD_not, getLsbD_mask, hi]
    cases x.getLsbD i <;> simp
  have hzeros : ∀ i < n, (x &&& ~~~mask w n).getLsbD i = false := by
    intro i hi
    simp only [BitVec.getLsbD_and, BitVec.getLsbD_not, getLsbD_mask, hi]
    cases decide (i < w) <;> simp
  have hshift : (x &&& ~~~mask w n) >>> n = x >>> n := by
    refine BitVec.eq_of_getLsbD_eq fun i hi => ?_
    simp only [BitVec.getLsbD_ushiftRight, BitVec.getLsbD_and, BitVec.getLsbD_not, getLsbD_mask]
    have hn : ¬ n + i < n := by omega
    by_cases hw : n + i < w
    · simp [hn, hw]
    · simp [hn, hw, BitVec.getLsbD_of_ge x (n + i) (by omega)]
  calc (step poly)^[n] x = (step poly)^[n] ((x &&& mask w n) ^^^ (x &&& ~~~mask w n)) := by rw [← hsplit]
    _ = (step poly)^[n] (x &&& mask w n) ^^^ x >>> n := by
      rw [iterate_step_xor, iterate_step_of_zeros hzeros, hshift]

theorem getLsbD_ofBits : (ofBits w bs).getLsbD i = (decide (i < w) && bs[i]?.getD false) := by
  induction bs generalizing i with
  | nil => simp [ofBits]
  | cons b bs ih =>
    rw [ofBits, BitVec.getLsbD_xor, BitVec.getLsbD_shiftLeft, ih]
    cases i with
    | zero => cases b <;> simp [ofBit]
    | succ i =>
      have hbit : (ofBit w b).getLsbD (i + 1) = false := by
        cases b <;> simp [ofBit]
      rw [hbit, Bool.false_xor, Nat.add_sub_cancel, List.getElem?_cons_succ]
      by_cases hw : i + 1 < w
      · simp [hw, show i < w by omega]
      · simp [hw]

/-- Bits that enter one by one are a word that enters at once. -/
theorem foldl_shiftIn (h : bs.length ≤ w) :
    bs.foldl (shiftIn poly) x = (step poly)^[bs.length] (x ^^^ ofBits w bs) := by
  induction bs generalizing x with
  | nil => simp [ofBits]
  | cons b bs ih =>
    rw [List.length_cons] at h
    -- the bits behind the first one do not fall out with it
    have hrest : step poly (ofBits w bs <<< 1) = ofBits w bs := by
      have hzeros : ∀ i < 1, (ofBits w bs <<< 1).getLsbD i = false := by
        intro i hi
        simp [BitVec.getLsbD_shiftLeft, hi]
      refine (iterate_step_of_zeros hzeros).trans (BitVec.eq_of_getLsbD_eq fun i hi => ?_)
      rw [BitVec.getLsbD_ushiftRight, BitVec.getLsbD_shiftLeft]
      by_cases hlt : 1 + i < w
      · simp [hlt]
      · have hnone : bs[i]? = none := List.getElem?_eq_none (by omega)
        simp [hlt, getLsbD_ofBits, hnone]
    rw [List.foldl_cons, ih (by omega), List.length_cons, Function.iterate_succ_apply, ofBits, ← BitVec.xor_assoc,
      step_xor, hrest]
    rfl

end Kumiko.Crc
