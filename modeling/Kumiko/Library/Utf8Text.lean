import Mathlib.Data.List.Basic
import Mathlib.Tactic.SplitIfs

/-!
# Decoding UTF-8

A decoder that reads byte after byte and puts the replacement character where the bytes are no UTF-8: a sequence that
is broken off is replaced once, and the byte that breaks it off is read anew. A byte order mark at the start is dropped
(`decode`). Encoded text is read back, but for such a mark (`decode_encode`).
-/

namespace Kumiko.Utf8Text

/-- The bytes of a text. -/
def encode (text : List Char) : List UInt8 := text.flatMap String.utf8EncodeChar

/-- What a decoder has read of a character: its bits so far, the bounds of the next byte, and how many bytes it
needs. -/
inductive State where
  | start
  | inside (codePoint lower upper needed : ℕ)

/-- The replacement character. -/
def replacement : Char := '\uFFFD'

/-- A byte at the start of a character. -/
def first (b : ℕ) : List Char × State :=
  if b ≤ 0x7F then ([Char.ofNat b], .start)
  else if 0xC2 ≤ b ∧ b ≤ 0xDF then ([], .inside (b % 32) 0x80 0xBF 1)
  else if 0xE0 ≤ b ∧ b ≤ 0xEF then
    ([], .inside (b % 16) (if b = 0xE0 then 0xA0 else 0x80) (if b = 0xED then 0x9F else 0xBF) 2)
  else if 0xF0 ≤ b ∧ b ≤ 0xF4 then
    ([], .inside (b % 8) (if b = 0xF0 then 0x90 else 0x80) (if b = 0xF4 then 0x8F else 0xBF) 3)
  else ([replacement], .start)

/-- A byte of the input. -/
def next (b : ℕ) : State → List Char × State
  | .start => first b
  | .inside codePoint lower upper needed =>
    if b < lower ∨ upper < b then (replacement :: (first b).1, (first b).2)
    else if needed = 1 then ([Char.ofNat (codePoint * 64 + b % 64)], .start)
    else ([], .inside (codePoint * 64 + b % 64) 0x80 0xBF (needed - 1))

/-- The characters of the input from a state on. -/
def decodeFrom : State → List UInt8 → List Char
  | .start, [] => []
  | .inside .., [] => [replacement]
  | s, b :: bs => (next b.toNat s).1 ++ decodeFrom (next b.toNat s).2 bs

/-- The text without a byte order mark. -/
def dropMark : List Char → List Char
  | c :: cs => if c = '\uFEFF' then cs else c :: cs
  | [] => []

def decode (bytes : List UInt8) : List Char := dropMark (decodeFrom .start bytes)

variable {bs : List UInt8} {c : Char} {b codePoint lower upper needed : ℕ}

theorem decodeFrom_cons (s : State) (hb : b < 256) :
    decodeFrom s (UInt8.ofNat b :: bs) = (next b s).1 ++ decodeFrom (next b s).2 bs := by
  have htoNat : (UInt8.ofNat b).toNat = b := by
    rw [UInt8.toNat_ofNat']
    exact Nat.mod_eq_of_lt hb
  rw [decodeFrom, htoNat]

/-- A byte within the bounds that is not the last one. -/
theorem decodeFrom_inside (hl : lower ≤ b) (hu : b ≤ upper) (hb : b < 256) (hn : needed ≠ 0) :
    decodeFrom (.inside codePoint lower upper (needed + 1)) (UInt8.ofNat b :: bs) =
      decodeFrom (.inside (codePoint * 64 + b % 64) 0x80 0xBF needed) bs := by
  have hin : ¬ (b < lower ∨ upper < b) := by omega
  have hmore : ¬ needed + 1 = 1 := by omega
  rw [decodeFrom_cons _ hb, next, if_neg hin, if_neg hmore]
  rfl

/-- The last byte of a character. -/
theorem decodeFrom_last (hl : lower ≤ b) (hu : b ≤ upper) (hb : b < 256) :
    decodeFrom (.inside codePoint lower upper 1) (UInt8.ofNat b :: bs) =
      Char.ofNat (codePoint * 64 + b % 64) :: decodeFrom .start bs := by
  have hin : ¬ (b < lower ∨ upper < b) := by omega
  rw [decodeFrom_cons _ hb, next, if_neg hin, if_pos rfl]
  rfl

/-- An encoded character is read back. -/
theorem decodeFrom_utf8EncodeChar : decodeFrom .start (String.utf8EncodeChar c ++ bs) = c :: decodeFrom .start bs := by
  have hvalid : c.val.toNat < 0xD800 ∨ 0xDFFF < c.val.toNat ∧ c.val.toNat < 0x110000 := c.valid
  have hc : Char.ofNat c.val.toNat = c := Char.ofNat_toNat c
  unfold String.utf8EncodeChar
  generalize c.val.toNat = v at hvalid hc
  dsimp only
  split_ifs with h1 h2 h3
  · rw [List.singleton_append, decodeFrom_cons _ (by omega), next, first, if_pos h1, hc]
    rfl
  · have hfirst : first (v / 64 % 0x20 + 0xc0) = ([], .inside (v / 64) 0x80 0xBF 1) := by
      rw [first, if_neg (by omega), if_pos (by omega)]
      congr 2
      omega
    rw [List.cons_append, List.singleton_append, decodeFrom_cons _ (by omega), next, hfirst, List.nil_append,
      decodeFrom_last (by omega) (by omega) (by omega)]
    congr 1
    rw [← hc]
    congr 1
    omega
  · have hfirst : first (v / 4096 % 0x10 + 0xe0) = ([], .inside (v / 4096)
        (if v / 4096 = 0 then 0xA0 else 0x80) (if v / 4096 = 13 then 0x9F else 0xBF) 2) := by
      rw [first, if_neg (by omega), if_neg (by omega), if_pos (by omega)]
      congr 2
      · omega
      · split_ifs <;> omega
      · split_ifs <;> omega
    rw [List.cons_append, List.cons_append, List.singleton_append, decodeFrom_cons _ (by omega), next, hfirst,
      List.nil_append, decodeFrom_inside (by split_ifs <;> omega) (by split_ifs <;> omega) (by omega) Nat.one_ne_zero,
      decodeFrom_last (by omega) (by omega) (by omega)]
    congr 1
    rw [← hc]
    congr 1
    omega
  · have hfirst : first (v / 262144 % 0x08 + 0xf0) = ([], .inside (v / 262144)
        (if v / 262144 = 0 then 0x90 else 0x80) (if v / 262144 = 4 then 0x8F else 0xBF) 3) := by
      rw [first, if_neg (by omega), if_neg (by omega), if_neg (by omega), if_pos (by omega)]
      congr 2
      · omega
      · split_ifs <;> omega
      · split_ifs <;> omega
    rw [List.cons_append, List.cons_append, List.cons_append, List.singleton_append, decodeFrom_cons _ (by omega),
      next, hfirst, List.nil_append,
      decodeFrom_inside (by split_ifs <;> omega) (by split_ifs <;> omega) (by omega) (Nat.succ_ne_zero 1),
      decodeFrom_inside (by omega) (by omega) (by omega) Nat.one_ne_zero,
      decodeFrom_last (by omega) (by omega) (by omega)]
    congr 1
    rw [← hc]
    congr 1
    omega

theorem decodeFrom_encode (text : List Char) : decodeFrom .start (encode text) = text := by
  induction text with
  | nil => rfl
  | cons c cs ih =>
    rw [encode, List.flatMap_cons, decodeFrom_utf8EncodeChar]
    exact congrArg (c :: ·) ih

/-- Encoded text is read back without a byte order mark. -/
theorem decode_encode (text : List Char) : decode (encode text) = dropMark text := by
  rw [decode, decodeFrom_encode]

theorem dropMark_eq_self {text : List Char} : dropMark text = text ↔ text.head? ≠ some '\uFEFF' := by
  cases text with
  | nil => simp [dropMark]
  | cons c cs =>
    rw [dropMark, List.head?_cons]
    split_ifs with h
    · simp [h]
    · simp [h]

end Kumiko.Utf8Text
