import Kumiko.Auth.OneTimeCodes
import Kumiko.Library.BitGroups

/-!
# Base32

`auth-mfa/base32.ts`. Both loops shift their input into one JavaScript number that falls off at 32 bits; what
they keep is a regrouping of bits (`BitGroups.Regrouped`). A text is accepted exactly if it cleans to the
encoding of the bytes it stands for (`base32Decode_ok_iff`).
-/

namespace Kumiko

open BitGroups

/-- What `String.prototype.toUpperCase` does to a character; it may become several. -/
structure CaseMapping where
  upper : Char → List Char
  ascii : ∀ c : Char, c.toNat < 128 → upper c = [c.toUpper]
  whiteSpace : ∀ c, isWhiteSpace c = true → upper c = [c]

/-- Reference: `String.prototype.toUpperCase`. -/
def CaseMapping.toUpperCase (cases : CaseMapping) (text : List Char) : List Char := text.flatMap cases.upper

/-- `ALPHABET[index]` -/
def base32Char (index : ℕ) : Char := base32Alphabet.getD index 'A'

/-- The inner loop of `base32Encode`: the upper five of the bits held become a character while there are five. -/
def base32Emit (value : ℕ) : ℕ → List Char → ℕ × List Char
  | bits + 5, output => base32Emit value bits (output ++ [base32Char (value >>> bits &&& 0x1f)])
  | bits, output => (bits, output)

/-- One byte of `base32Encode`. The value wraps at 32 bits. -/
def base32EncodeStep (acc : ℕ × ℕ × List Char) (byte : UInt8) : ℕ × ℕ × List Char :=
  let value := (acc.1 <<< 8 ||| byte.toNat) % 2 ^ 32
  (value, base32Emit value (acc.2.1 + 8) acc.2.2)

/-- Reference: `base32Encode`. -/
def base32Encode (bytes : List UInt8) : List Char :=
  match bytes.foldl base32EncodeStep (0, 0, []) with
  | (value, bits, output) =>
    if 0 < bits then output ++ [base32Char (value <<< (5 - bits) % 2 ^ 32 &&& 0x1f)] else output

/-- `clean` in `base32Decode`. -/
def base32Clean (cases : CaseMapping) (encoded : List Char) : List Char :=
  let trimmed := (encoded.dropWhile isWhiteSpace).rdropWhile isWhiteSpace
  ((cases.toUpperCase trimmed).filter (!isWhiteSpace ·)).rdropWhile (· = '=')

/-- One character of `base32Decode`. -/
def base32DecodeStep (acc : ℕ × ℕ × List UInt8) (char : Char) : Except String (ℕ × ℕ × List UInt8) :=
  match base32Step acc char with
  | none => .error ("base32Decode: invalid character \"" ++ char.toString ++ "\"")
  | some acc => .ok acc

/-- `base32Decode` behind the cleaning. -/
def decodeClean (clean : List Char) : Except String (List UInt8) :=
  match clean.foldlM base32DecodeStep (0, 0, []) with
  | .error message => .error message
  | .ok (value, bits, bytes) =>
    if 5 ≤ bits ∨ value &&& (1 <<< bits - 1) ≠ 0 then
      .error "base32Decode: invalid length or non-zero padding bits"
    else .ok bytes

/-- Reference: `base32Decode`. -/
def base32Decode (cases : CaseMapping) (encoded : List Char) : Except String (List UInt8) :=
  decodeClean (base32Clean cases encoded)

/-! ## Characters -/

theorem idxOf?_base32Char : ∀ d < 32, base32Alphabet.idxOf? (base32Char d) = some d := by decide

theorem of_idxOf?_base32Alphabet {c : Char} {d : ℕ} (h : base32Alphabet.idxOf? c = some d) :
    d < 32 ∧ base32Char d = c := by
  rw [List.idxOf?, List.findIdx?_eq_some_iff_getElem] at h
  obtain ⟨hd, hc, -⟩ := h
  refine ⟨hd, ?_⟩
  rw [base32Char, List.getD_eq_getElem?_getD, List.getElem?_eq_getElem hd]
  exact eq_of_beq hc

/-- An alphabet character is an upper-case letter or a digit. -/
theorem base32Char_plain : ∀ d < 32, (base32Char d).toNat < 128 ∧ (base32Char d).toUpper = base32Char d ∧
    isWhiteSpace (base32Char d) = false ∧ base32Char d ≠ '=' := by decide

/-! ## Encoding -/

section
variable {bytes : List UInt8} {acc : ℕ × ℕ × List Char} {read ds : List ℕ} {value bits : ℕ}
  {output : List Char}

/-- What `base32Encode` keeps: its low bits are those that are not in the output yet, fewer than five. -/
def Encoding (bytes : List UInt8) (acc : ℕ × ℕ × List Char) : Prop :=
  acc.2.1 < 5 ∧ ∃ ds, acc.2.2 = ds.map base32Char ∧
    Regrouped 8 5 (bytes.map UInt8.toNat) ds acc.2.1 (acc.1 % 2 ^ acc.2.1)

theorem base32Emit_spec (h : Regrouped 8 5 read ds bits (value % 2 ^ bits)) :
    (base32Emit value bits (ds.map base32Char)).1 < 5 ∧
      ∃ ds', (base32Emit value bits (ds.map base32Char)).2 = ds'.map base32Char ∧
        Regrouped 8 5 read ds' (base32Emit value bits (ds.map base32Char)).1
          (value % 2 ^ (base32Emit value bits (ds.map base32Char)).1) := by
  induction bits using Nat.strong_induction_on generalizing ds with
  | _ bits ih =>
    by_cases hbits : bits < 5
    · have hemit : base32Emit value bits (ds.map base32Char) = (bits, ds.map base32Char) := by
        unfold base32Emit
        split
        · omega
        · rfl
      rw [hemit]
      exact ⟨hbits, ds, rfl, h⟩
    · obtain ⟨k, rfl⟩ := Nat.exists_eq_add_of_le' (Nat.le_of_not_lt hbits)
      have hdigit : value % 2 ^ (k + 5) / 2 ^ k = value >>> k &&& 0x1f := (shiftOut_and value).symm
      have hwrite := h.write
      rw [hdigit, Nat.mod_mod_of_dvd _ (Nat.pow_dvd_pow 2 (Nat.le_add_right k 5))] at hwrite
      have := ih k (by omega) hwrite
      simpa only [base32Emit, List.map_append, List.map_cons, List.map_nil] using this

theorem encoding_step (h : Encoding bytes acc) (byte : UInt8) :
    Encoding (bytes ++ [byte]) (base32EncodeStep acc byte) := by
  obtain ⟨value, bits, output⟩ := acc
  obtain ⟨hbits, ds, rfl, hr⟩ := h
  have hread := hr.read byte.toNat_lt
  dsimp only at hbits hread
  rw [← shiftIn_mod (w := 32) byte.toNat_lt (by omega)] at hread
  obtain ⟨hlt, ds', hout, hr'⟩ := base32Emit_spec hread
  refine ⟨hlt, ds', hout, ?_⟩
  rw [List.map_append]
  exact hr'

theorem encoding_foldl (bytes : List UInt8) : Encoding bytes (bytes.foldl base32EncodeStep (0, 0, [])) := by
  induction bytes using List.reverseRecOn with
  | nil => exact ⟨by decide, [], rfl, .nil⟩
  | append_singleton bytes byte ih =>
    rw [List.foldl_concat]
    exact encoding_step ih byte

/-- The output stands for the bytes cut into groups of five bits, the last one filled up with zeros. -/
theorem base32Encode_digits (bytes : List UInt8) :
    ∃ ds k, base32Encode bytes = ds.map base32Char ∧ (∀ d ∈ ds, d < 2 ^ 5) ∧ k < 5 ∧
      Regrouped 5 8 ds (bytes.map UInt8.toNat) k 0 := by
  obtain ⟨hbits, ds, hout, hr⟩ := encoding_foldl bytes
  have hbytes : ∀ x ∈ bytes.map UInt8.toNat, x < 2 ^ 8 := by
    intro x hx
    obtain ⟨byte, -, rfl⟩ := List.mem_map.1 hx
    exact byte.toNat_lt
  unfold base32Encode
  generalize bytes.foldl base32EncodeStep (0, 0, []) = acc at hbits hout hr
  obtain ⟨value, bits, output⟩ := acc
  dsimp only at hbits hout hr ⊢
  subst hout
  split
  · rename_i hpos
    have hpad := hr.pad hbytes (Nat.le_of_lt hbits)
    have hlast : value <<< (5 - bits) % 2 ^ 32 &&& 0x1f = value % 2 ^ bits * 2 ^ (5 - bits) := by
      have := shiftIn_mod (m := 5 - bits) (k := bits) (v := value) (w := 32) (Nat.two_pow_pos _) (by omega)
      rw [Nat.or_zero, Nat.add_zero, Nat.add_sub_cancel' (Nat.le_of_lt hbits)] at this
      rw [← this]
      exact Nat.and_two_pow_sub_one_eq_mod _ 5
    rw [← hlast] at hpad
    have hdigits := hpad.length
    refine ⟨ds ++ [value <<< (5 - bits) % 2 ^ 32 &&& 0x1f], 5 - bits, by simp, ?_, by omega, hpad⟩
    intro d hd
    rcases List.mem_append.1 hd with hd | hd
    · exact hr.digits d hd
    · obtain rfl := List.mem_singleton.1 hd
      exact Nat.lt_of_le_of_lt Nat.and_le_right (by decide)
  · obtain rfl : bits = 0 := by omega
    exact ⟨ds, 0, rfl, hr.digits, by decide, hr.symm hbytes⟩

end

/-! ## Decoding -/

section
variable {acc acc' : ℕ × ℕ × List UInt8} {read ds : List ℕ} {clean : List Char} {bytes : List UInt8} {c : Char}
  {d : ℕ}

/-- What `base32Decode` keeps: its low bits are those that are not in the bytes yet, fewer than eight. -/
def Decoding (read : List ℕ) (acc : ℕ × ℕ × List UInt8) : Prop :=
  acc.2.1 < 8 ∧ Regrouped 5 8 read (acc.2.2.map UInt8.toNat) acc.2.1 (acc.1 % 2 ^ acc.2.1)

theorem decoding_step (h : Decoding read acc) (hd : d < 2 ^ 5) :
    ∃ acc', base32DecodeStep acc (base32Char d) = .ok acc' ∧ Decoding (read ++ [d]) acc' := by
  obtain ⟨value, bits, bytes⟩ := acc
  obtain ⟨hbits, hr⟩ := h
  have hread := hr.read hd
  dsimp only at hbits hr hread
  rw [← shiftIn_mod (w := 32) hd (by omega)] at hread
  simp only [base32DecodeStep, base32Step, idxOf?_base32Char d hd, Option.map_some]
  split
  · rename_i hfull
    obtain ⟨k, hk⟩ := Nat.exists_eq_add_of_le' hfull
    rw [hk] at hread
    have hwrite := hread.write
    rw [← shiftOut_and, Nat.mod_mod_of_dvd _ (Nat.pow_dvd_pow 2 (Nat.le_add_right k 8))] at hwrite
    have hbyte : ((value <<< 5 ||| d) % 2 ^ 32) >>> k &&& (2 ^ 8 - 1) =
        (UInt8.ofNat (((value <<< 5 ||| d) % 2 ^ 32) >>> k)).toNat := by
      rw [UInt8.toNat_ofNat']
      exact Nat.and_two_pow_sub_one_eq_mod _ 8
    rw [hbyte] at hwrite
    refine ⟨_, rfl, ?_⟩
    rw [hk, Nat.add_sub_cancel]
    refine ⟨by dsimp only; omega, ?_⟩
    rw [List.map_append]
    exact hwrite
  · rename_i hmore
    exact ⟨_, rfl, by dsimp only; omega, hread⟩

theorem base32DecodeStep_ok (h : base32DecodeStep acc c = .ok acc') : ∃ d < 2 ^ 5, base32Char d = c := by
  unfold base32DecodeStep base32Step at h
  cases hc : base32Alphabet.idxOf? c with
  | none => simp [hc] at h
  | some d => exact ⟨d, of_idxOf?_base32Alphabet hc⟩

theorem decoding_foldlM (hds : ∀ d ∈ ds, d < 2 ^ 5) :
    ∃ acc, (ds.map base32Char).foldlM base32DecodeStep (0, 0, []) = .ok acc ∧ Decoding ds acc := by
  induction ds using List.reverseRecOn with
  | nil => exact ⟨_, rfl, by decide, .nil⟩
  | append_singleton ds d ih =>
    obtain ⟨acc, hacc, hd⟩ := ih fun d hd => hds d (List.mem_append_left _ hd)
    obtain ⟨acc', hstep, hd'⟩ := decoding_step hd (hds d (by simp))
    refine ⟨acc', ?_, hd'⟩
    rw [List.map_append, List.foldlM_append, hacc]
    simp only [List.map_cons, List.map_nil, List.foldlM_cons, List.foldlM_nil, bind, Except.bind, pure,
      Except.pure, hstep]

/-- Only a text over the alphabet passes the loop. -/
theorem digits_of_foldlM (h : clean.foldlM base32DecodeStep acc = .ok acc') :
    ∃ ds : List ℕ, clean = ds.map base32Char ∧ ∀ d ∈ ds, d < 2 ^ 5 := by
  induction clean generalizing acc with
  | nil => exact ⟨[], rfl, by simp⟩
  | cons c clean ih =>
    rw [List.foldlM_cons] at h
    cases hc : base32DecodeStep acc c with
    | error message => simp [hc, bind, Except.bind] at h
    | ok acc₁ =>
      simp only [hc, bind, Except.bind] at h
      obtain ⟨ds, rfl, hds⟩ := ih h
      obtain ⟨d, hd, rfl⟩ := base32DecodeStep_ok hc
      exact ⟨d :: ds, rfl, by simpa using ⟨hd, hds⟩⟩

theorem decodeClean_ok_iff : decodeClean clean = .ok bytes ↔
    ∃ (ds : List ℕ) (k : ℕ), clean = ds.map base32Char ∧ (∀ d ∈ ds, d < 2 ^ 5) ∧ k < 5 ∧
      Regrouped 5 8 ds (bytes.map UInt8.toNat) k 0 := by
  have hmask : ∀ value bits : ℕ, value &&& (1 <<< bits - 1) = value % 2 ^ bits := fun value bits => by
    rw [Nat.one_shiftLeft, Nat.and_two_pow_sub_one_eq_mod]
  constructor
  · intro h
    unfold decodeClean at h
    split at h
    · cases h
    · rename_i value bits out hfold
      obtain ⟨ds, rfl, hds⟩ := digits_of_foldlM hfold
      obtain ⟨acc, hacc, hbits, hr⟩ := decoding_foldlM hds
      obtain rfl := Except.ok.inj (hacc.symm.trans hfold)
      split at h
      · cases h
      · rename_i hpad
        obtain rfl := Except.ok.inj h
        rw [not_or, Nat.not_le, not_not, hmask] at hpad
        dsimp only at hr
        rw [hpad.2] at hr
        exact ⟨ds, bits, rfl, hds, hpad.1, hr⟩
  · rintro ⟨ds, k, rfl, hds, hk, hr⟩
    obtain ⟨⟨value, bits, out⟩, hacc, hbits, hr'⟩ := decoding_foldlM hds
    obtain ⟨hout, rfl, hp⟩ := hr.written_unique hr' (by omega) hbits
    have : bytes = out := List.map_injective_iff.2 (fun a b => UInt8.toNat_inj.1) hout
    subst this
    dsimp only at hp hk
    have hpad : ¬(5 ≤ k ∨ value &&& (1 <<< k - 1) ≠ 0) := by
      rw [not_or, Nat.not_le, not_not, hmask]
      exact ⟨hk, hp.symm⟩
    simp only [decodeClean, hacc, if_neg hpad]

/-- A cleaned text is accepted exactly if it is the encoding of the bytes it is decoded to. -/
theorem decodeClean_ok_iff_eq : decodeClean clean = .ok bytes ↔ clean = base32Encode bytes := by
  obtain ⟨es, k', henc, hes, hk', hr'⟩ := base32Encode_digits bytes
  rw [decodeClean_ok_iff]
  constructor
  · rintro ⟨ds, k, rfl, hds, hk, hr⟩
    rw [henc, hr.read_unique hr' hk hk' hds hes]
  · rintro rfl
    exact ⟨es, k', henc, hes, hk', hr'⟩

end

/-! ## Both together -/

section
variable {cases : CaseMapping} {text : List Char} {bytes : List UInt8}

theorem base32Clean_digits {ds : List ℕ} (hds : ∀ d ∈ ds, d < 2 ^ 5) :
    base32Clean cases (ds.map base32Char) = ds.map base32Char := by
  have hplain : ∀ c ∈ ds.map base32Char, cases.upper c = [c] ∧ isWhiteSpace c = false ∧ c ≠ '=' := by
    intro c hc
    obtain ⟨d, hd, rfl⟩ := List.mem_map.1 hc
    obtain ⟨hascii, hupper, hspace, heq⟩ := base32Char_plain d (hds d hd)
    exact ⟨by rw [cases.ascii _ hascii, hupper], hspace, heq⟩
  generalize ds.map base32Char = clean at hplain
  have hup : cases.toUpperCase clean = clean := by
    rw [CaseMapping.toUpperCase, List.flatMap_congr fun c hc => (hplain c hc).1, List.flatMap_singleton']
  have hdrop : clean.dropWhile isWhiteSpace = clean := by
    cases clean with
    | nil => rfl
    | cons c clean => simp [(hplain c (.head _)).2.1]
  have hrdrop : ∀ p : Char → Bool, (∀ c ∈ clean, p c = false) → clean.rdropWhile p = clean := by
    intro p hp
    rw [List.rdropWhile_eq_self_iff]
    intro hne
    simp [hp _ (List.getLast_mem hne)]
  rw [base32Clean, hdrop, hrdrop _ fun c hc => (hplain c hc).2.1, hup,
    List.filter_eq_self.2 fun c hc => by simp [(hplain c hc).2.1], hrdrop]
  exact fun c hc => by simpa using (hplain c hc).2.2

theorem base32Clean_encode : base32Clean cases (base32Encode bytes) = base32Encode bytes := by
  obtain ⟨ds, k, henc, hds, -⟩ := base32Encode_digits bytes
  rw [henc, base32Clean_digits hds]

theorem base32Decode_ok_iff : base32Decode cases text = .ok bytes ↔
    base32Clean cases text = base32Encode bytes := decodeClean_ok_iff_eq

/-- Bytes come back from their encoding, and a text is accepted only if it cleans to the encoding of what it gives. -/
theorem base32_canonical (cases : CaseMapping) :
    (∀ bytes, base32Decode cases (base32Encode bytes) = .ok bytes) ∧
      ∀ text bytes, base32Decode cases text = .ok bytes → base32Clean cases text = base32Encode bytes :=
  ⟨fun _ => base32Decode_ok_iff.2 base32Clean_encode, fun _ _ => base32Decode_ok_iff.1⟩

/-- Upper case where only ASCII letters have one. -/
def asciiCases : CaseMapping where
  upper c := [c.toUpper]
  ascii _ _ := rfl
  whiteSpace c h := by
    have hc : ¬(97 ≤ c.val.toNat ∧ c.val.toNat ≤ 122) := by
      intro hlower
      have : c.toNat = c.val.toNat := rfl
      simp only [isWhiteSpace, List.contains_eq_mem, List.mem_cons, List.not_mem_nil, or_false, Bool.or_eq_true,
        Bool.and_eq_true, decide_eq_true_eq] at h
      omega
    exact congrArg ([·]) (dif_neg hc)

example : base32Decode asciiCases " mzxw 6yq=".toList = .ok [102, 111, 111, 98] := by decide

/-! ## The decoder of the one-time codes -/

/-- The trimming takes nothing that the removal of white space would leave. -/
theorem filter_toUpperCase_trim :
    (cases.toUpperCase ((text.dropWhile isWhiteSpace).rdropWhile isWhiteSpace)).filter (!isWhiteSpace ·) =
      (cases.toUpperCase text).filter (!isWhiteSpace ·) := by
  have hspace : ∀ spaces : List Char, (∀ c ∈ spaces, isWhiteSpace c = true) →
      (cases.toUpperCase spaces).filter (!isWhiteSpace ·) = [] := by
    intro spaces h
    rw [CaseMapping.toUpperCase, List.flatMap_congr fun c hc => cases.whiteSpace c (h c hc),
      List.flatMap_singleton', List.filter_eq_nil_iff]
    exact fun c hc => by simp [h c hc]
  set inner := text.dropWhile isWhiteSpace with hinner
  have hfront := List.takeWhile_append_dropWhile (p := isWhiteSpace) (l := text)
  have hback := List.rdropWhile_append_rtakeWhile (p := isWhiteSpace) (l := inner)
  conv_rhs => rw [← hfront, ← hinner, ← hback]
  simp only [CaseMapping.toUpperCase, List.flatMap_append, List.filter_append]
  rw [← CaseMapping.toUpperCase, ← CaseMapping.toUpperCase, ← CaseMapping.toUpperCase,
    hspace (text.takeWhile isWhiteSpace) fun c hc => List.mem_takeWhile_imp hc,
    hspace (inner.rtakeWhile isWhiteSpace) fun c hc => List.mem_rtakeWhile_imp hc,
    List.nil_append, List.append_nil]

theorem foldlM_base32DecodeStep (clean : List Char) (acc : ℕ × ℕ × List UInt8) :
    (clean.foldlM base32DecodeStep acc).toOption = clean.foldlM base32Step acc := by
  induction clean generalizing acc with
  | nil => rfl
  | cons c clean ih =>
    simp only [List.foldlM_cons, base32DecodeStep, bind, Except.bind, Option.bind]
    cases base32Step acc c with
    | none => rfl
    | some acc' => exact ih acc'

/-- `verifyTotp` reads its secret with this decoder. -/
theorem MfaPlatform.base32Decode_eq {P : MfaPlatform} {encoded : String}
    (hP : (P.toUpperCase encoded).toList = cases.toUpperCase encoded.toList) :
    P.base32Decode encoded = (Kumiko.base32Decode cases encoded.toList).toOption := by
  have hclean : base32Clean cases encoded.toList =
      ((P.toUpperCase encoded).toList.filter (!isWhiteSpace ·)).rdropWhile (· = '=') := by
    rw [base32Clean, filter_toUpperCase_trim, hP]
  rw [MfaPlatform.base32Decode, Kumiko.base32Decode, decodeClean, hclean, ← foldlM_base32DecodeStep]
  cases List.foldlM base32DecodeStep (0, 0, [])
      (((P.toUpperCase encoded).toList.filter (!isWhiteSpace ·)).rdropWhile (· = '=')) with
  | error message => rfl
  | ok acc =>
    dsimp only [Except.toOption]
    split <;> rfl

end

end Kumiko
