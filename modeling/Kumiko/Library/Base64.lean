import Mathlib.Data.List.Basic

/-!
# Base64

Bytes in groups of three become sextets in groups of four, and each sextet a character; the last group is
padded with `=`. Reading is lenient as it is in Node: it stops at the first `=`, skips what is no base64
character, and takes `-` and `_` for `+` and `/`. `decode_encode` is the round trip, and `colon_not_mem`
what a text needs to know that puts the base64 behind a colon.
-/

namespace Kumiko.Base64

/-- The sextets of a byte string; the last one or two bytes give two or three. -/
def sextets : List UInt8 → List ℕ
  | [] => []
  | [a] => [a.toNat / 4, a.toNat % 4 * 16]
  | [a, b] => [a.toNat / 4, a.toNat % 4 * 16 + b.toNat / 16, b.toNat % 16 * 4]
  | a :: b :: c :: rest =>
    a.toNat / 4 :: (a.toNat % 4 * 16 + b.toNat / 16) :: (b.toNat % 16 * 4 + c.toNat / 64) ::
      c.toNat % 64 :: sextets rest

/-- The bytes of a list of sextets; a single last sextet is dropped. -/
def ofSextets : List ℕ → List UInt8
  | [] => []
  | [_] => []
  | [p, q] => [.ofNat (p * 4 + q / 16)]
  | [p, q, r] => [.ofNat (p * 4 + q / 16), .ofNat (q % 16 * 16 + r / 4)]
  | p :: q :: r :: s :: rest =>
    .ofNat (p * 4 + q / 16) :: .ofNat (q % 16 * 16 + r / 4) :: .ofNat (r % 4 * 64 + s) :: ofSextets rest

/-- The 64 characters. -/
def alphabet : List Char :=
  ['A', 'B', 'C', 'D', 'E', 'F', 'G', 'H', 'I', 'J', 'K', 'L', 'M', 'N', 'O', 'P', 'Q', 'R', 'S', 'T', 'U',
    'V', 'W', 'X', 'Y', 'Z', 'a', 'b', 'c', 'd', 'e', 'f', 'g', 'h', 'i', 'j', 'k', 'l', 'm', 'n', 'o', 'p',
    'q', 'r', 's', 't', 'u', 'v', 'w', 'x', 'y', 'z', '0', '1', '2', '3', '4', '5', '6', '7', '8', '9', '+',
    '/']

def charOf (sextet : ℕ) : Char := alphabet.getD sextet 'A'

def sextetOf (c : Char) : Option ℕ :=
  if c = '-' then some 62
  else if c = '_' then some 63
  else alphabet.idxOf? c

/-- The `=` that fill the last group of four. -/
def padding (count : ℕ) : List Char :=
  match count % 4 with
  | 2 => ['=', '=']
  | 3 => ['=']
  | _ => []

def encode (bytes : List UInt8) : List Char :=
  (sextets bytes).map charOf ++ padding (sextets bytes).length

def decode (text : List Char) : List UInt8 :=
  ofSextets ((text.takeWhile (· ≠ '=')).filterMap sextetOf)

/-- A character is read as the sextet it stands for, and is neither padding nor a colon. -/
theorem sextetOf_charOf : ∀ s < 64, sextetOf (charOf s) = some s ∧ charOf s ≠ '=' ∧ charOf s ≠ ':' := by
  decide

theorem sextets_lt : ∀ (bytes : List UInt8), ∀ s ∈ sextets bytes, s < 64
  | [], s, hs => by cases hs
  | [a], s, hs => by
    have ha := a.toNat_lt
    rcases List.mem_pair.mp hs with rfl | rfl <;> omega
  | [a, b], s, hs => by
    have ha := a.toNat_lt
    have hb := b.toNat_lt
    simp only [sextets, List.mem_cons, List.not_mem_nil, or_false] at hs
    rcases hs with rfl | rfl | rfl <;> omega
  | a :: b :: c :: rest, s, hs => by
    have ha := a.toNat_lt
    have hb := b.toNat_lt
    have hc := c.toNat_lt
    simp only [sextets, List.mem_cons] at hs
    rcases hs with rfl | rfl | rfl | rfl | hs
    · omega
    · omega
    · omega
    · omega
    · exact sextets_lt rest s hs

theorem ofNat_toNat_of_eq {a : UInt8} {n : ℕ} (h : n = a.toNat) : UInt8.ofNat n = a := by
  rw [h, UInt8.ofNat_toNat]

/-- Bytes are read back from their sextets. -/
theorem ofSextets_sextets : ∀ bytes : List UInt8, ofSextets (sextets bytes) = bytes
  | [] => rfl
  | [a] => by
    have ha := a.toNat_lt
    simp only [sextets, ofSextets, List.cons.injEq, and_true]
    exact ofNat_toNat_of_eq (by omega)
  | [a, b] => by
    have ha := a.toNat_lt
    have hb := b.toNat_lt
    simp only [sextets, ofSextets, List.cons.injEq, and_true]
    exact ⟨ofNat_toNat_of_eq (by omega), ofNat_toNat_of_eq (by omega)⟩
  | a :: b :: c :: rest => by
    have ha := a.toNat_lt
    have hb := b.toNat_lt
    have hc := c.toNat_lt
    simp only [sextets, ofSextets, List.cons.injEq]
    refine ⟨ofNat_toNat_of_eq ?_, ofNat_toNat_of_eq ?_, ofNat_toNat_of_eq ?_, ofSextets_sextets rest⟩
    · omega
    · omega
    · omega

/-- The padding is at the end. -/
theorem takeWhile_encode (bytes : List UInt8) :
    (encode bytes).takeWhile (· ≠ '=') = (sextets bytes).map charOf := by
  have hall : ∀ c ∈ (sextets bytes).map charOf, decide (c ≠ '=') = true := by
    intro c hc
    obtain ⟨s, hs, rfl⟩ := List.mem_map.mp hc
    exact decide_eq_true (sextetOf_charOf s (sextets_lt bytes s hs)).2.1
  rw [encode, List.takeWhile_append_of_pos hall]
  have hpad : (padding (sextets bytes).length).takeWhile (· ≠ '=') = [] := by
    unfold padding
    split <;> rfl
  rw [hpad, List.append_nil]

/-- Encoded bytes are read back. -/
theorem decode_encode (bytes : List UInt8) : decode (encode bytes) = bytes := by
  have hsextets : ((sextets bytes).map charOf).filterMap sextetOf = sextets bytes := by
    rw [List.filterMap_map]
    conv_rhs => rw [← List.filterMap_some (l := sextets bytes)]
    exact List.filterMap_congr fun s hs => (sextetOf_charOf s (sextets_lt bytes s hs)).1
  rw [decode, takeWhile_encode, hsextets, ofSextets_sextets]

/-- No encoding has a colon. -/
theorem colon_not_mem (bytes : List UInt8) : ':' ∉ encode bytes := by
  intro h
  rcases List.mem_append.mp h with h | h
  · obtain ⟨s, hs, hc⟩ := List.mem_map.mp h
    exact (sextetOf_charOf s (sextets_lt bytes s hs)).2.2 hc
  · unfold padding at h
    split at h <;> simp at h

end Kumiko.Base64
