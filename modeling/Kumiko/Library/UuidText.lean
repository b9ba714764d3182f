import Mathlib.Data.List.Basic

/-!
# Texts of UUIDs

What PostgreSQL reads of a text as a `uuid`: the spellings of one id are many, and only `uuidIn` compares them.
-/

namespace Kumiko

def hexDigit (c : Char) : Option ℕ :=
  if '0' ≤ c ∧ c ≤ '9' then some (c.toNat - '0'.toNat)
  else if 'a' ≤ c ∧ c ≤ 'f' then some (c.toNat - 'a'.toNat + 10)
  else if 'A' ≤ c ∧ c ≤ 'F' then some (c.toNat - 'A'.toNat + 10)
  else none

/-- The given number of bytes, each of two hex digits. A hyphen may follow every second one but the last. -/
def uuidBytes : ℕ → List Char → Option (List ℕ × List Char)
  | 0, cs => some ([], cs)
  | k + 1, high :: low :: cs => do
    let high ← hexDigit high
    let low ← hexDigit low
    let cs := if k ≠ 0 ∧ k % 2 = 0 ∧ cs.head? = some '-' then cs.tail else cs
    let (bytes, rest) ← uuidBytes k cs
    return ((16 * high + low) :: bytes, rest)
  | _ + 1, _ => none

/-- What a text is as a `uuid`. Reference: `uuid_in` of PostgreSQL. -/
def uuidIn (text : String) : Option (List ℕ) :=
  match text.toList with
  | '\x7b' :: cs =>
    match uuidBytes 16 cs with
    | some (bytes, ['\x7d']) => some bytes
    | _ => none
  | cs =>
    match uuidBytes 16 cs with
    | some (bytes, []) => some bytes
    | _ => none

/-- The text names the row with that id. -/
def NamesRow (text id : String) : Prop := (uuidIn text).isSome ∧ uuidIn text = uuidIn id

instance (text id : String) : Decidable (NamesRow text id) := inferInstanceAs (Decidable (_ ∧ _))

end Kumiko
