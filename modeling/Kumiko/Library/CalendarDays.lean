import Mathlib.Data.String.Basic
import Mathlib.Tactic.IntervalCases

/-!
# Days of the calendar and their texts

A day of the proleptic Gregorian calendar, the next day, and its ISO 8601 text. Texts of four-digit years are in
the order of the days (`text_lt_text_iff`), and no text of a day lies between that of a day and that of the next
(`text_lt_next_iff`).
-/

namespace CalendarDays

/-! ## Digits -/

/-- The last digits of a number. -/
def digits : ℕ → ℕ → List Char
  | 0, _ => []
  | k + 1, n => digits k (n / 10) ++ [Nat.digitChar (n % 10)]

theorem length_digits (k n : ℕ) : (digits k n).length = k := by
  induction k generalizing n with
  | zero => rfl
  | succ k ih => rw [digits, List.length_append, ih, List.length_singleton]

theorem digitChar_lt_iff {a b : ℕ} (ha : a < 10) (hb : b < 10) : Nat.digitChar a < Nat.digitChar b ↔ a < b := by
  have hall : ∀ a b : Fin 10, Nat.digitChar a < Nat.digitChar b ↔ a < b := by decide
  exact hall ⟨a, ha⟩ ⟨b, hb⟩

theorem digitChar_inj {a b : ℕ} (ha : a < 10) (hb : b < 10) : Nat.digitChar a = Nat.digitChar b ↔ a = b := by
  have hall : ∀ a b : Fin 10, Nat.digitChar a = Nat.digitChar b ↔ a = b := by decide
  simpa using hall ⟨a, ha⟩ ⟨b, hb⟩

/-- Lists with beginnings of one length are compared by these first. -/
theorem append_lt_append_iff {xs ys as bs : List Char} (h : xs.length = ys.length) :
    xs ++ as < ys ++ bs ↔ xs < ys ∨ xs = ys ∧ as < bs := by
  induction xs generalizing ys with
  | nil =>
    obtain rfl := List.length_eq_zero_iff.1 h.symm
    simp
  | cons x xs ih =>
    cases ys with
    | nil => cases h
    | cons y ys =>
      have hrest := ih (Nat.succ.inj h)
      simp only [List.cons_append, List.cons_lt_cons_iff, hrest, List.cons.injEq]
      tauto

theorem digits_inj {k a b : ℕ} (ha : a < 10 ^ k) (hb : b < 10 ^ k) : digits k a = digits k b ↔ a = b := by
  induction k generalizing a b with
  | zero =>
    rw [pow_zero] at ha hb
    exact ⟨fun _ => by omega, fun _ => rfl⟩
  | succ k ih =>
    rw [pow_succ] at ha hb
    refine ⟨fun h => ?_, fun h => h ▸ rfl⟩
    obtain ⟨hdiv, hmod⟩ := List.append_inj' h rfl
    have hdiv := (ih (by omega) (by omega)).1 hdiv
    have hmod := (digitChar_inj (Nat.mod_lt a (by decide)) (Nat.mod_lt b (by decide))).1 (List.cons.inj hmod).1
    omega

theorem digits_lt_iff {k a b : ℕ} (ha : a < 10 ^ k) (hb : b < 10 ^ k) : digits k a < digits k b ↔ a < b := by
  induction k generalizing a b with
  | zero =>
    have : ¬ a < b := by omega
    simp [digits, this]
  | succ k ih =>
    rw [pow_succ] at ha hb
    rw [digits, digits, append_lt_append_iff (by simp only [length_digits]), ih (by omega) (by omega),
      digits_inj (by omega) (by omega), List.cons_lt_cons_iff,
      digitChar_lt_iff (Nat.mod_lt a (by decide)) (Nat.mod_lt b (by decide))]
    have hnil : ¬ ([] : List Char) < [] := List.not_lt_nil _
    simp only [hnil, and_false, or_false]
    omega

/-! ## Days -/

def IsLeapYear (year : ℤ) : Prop := year % 4 = 0 ∧ (year % 100 ≠ 0 ∨ year % 400 = 0)

instance (year : ℤ) : Decidable (IsLeapYear year) := inferInstanceAs (Decidable (_ ∧ _))

def daysInMonth (year : ℤ) (month : ℕ) : ℕ :=
  if month = 2 then if IsLeapYear year then 29 else 28
  else if month = 4 ∨ month = 6 ∨ month = 9 ∨ month = 11 then 30
  else 31

theorem daysInMonth_pos (year : ℤ) (month : ℕ) : 1 ≤ daysInMonth year month := by
  unfold daysInMonth
  repeat' split
  all_goals omega

theorem daysInMonth_le (year : ℤ) (month : ℕ) : daysInMonth year month ≤ 31 := by
  unfold daysInMonth
  repeat' split
  all_goals omega

theorem one_le_twelve : 1 ≤ 12 := by decide

/-- A day of the calendar. -/
@[ext]
structure PlainDate where
  year : ℤ
  month : ℕ
  day : ℕ
  one_le_month : 1 ≤ month := by first | exact Nat.one_pos | decide
  month_le : month ≤ 12 := by first | exact one_le_twelve | decide
  one_le_day : 1 ≤ day := by first | exact Nat.one_pos | decide
  day_le : day ≤ daysInMonth year month := by decide

namespace PlainDate

variable {d d' before : PlainDate}

/-- The day after. -/
def next (d : PlainDate) : PlainDate :=
  if h : d.day < daysInMonth d.year d.month then
    { d with day := d.day + 1, one_le_day := by omega, day_le := h }
  else if h : d.month < 12 then
    { year := d.year, month := d.month + 1, day := 1
      one_le_month := by omega
      month_le := h
      one_le_day := le_rfl
      day_le := daysInMonth_pos _ _ }
  else
    { year := d.year + 1, month := 1, day := 1, day_le := daysInMonth_pos _ _ }

/-- The day is earlier than the other one. -/
def Before (d d' : PlainDate) : Prop :=
  d.year < d'.year ∨ d.year = d'.year ∧ (d.month < d'.month ∨ d.month = d'.month ∧ d.day < d'.day)

instance (d d' : PlainDate) : Decidable (d.Before d') := inferInstanceAs (Decidable (_ ∨ _))

/-- No day lies between one and the next. -/
theorem before_next_iff : d.Before before.next ↔ ¬ before.Before d := by
  have hd := d.day_le
  have hpos := d.one_le_day
  have hmonth := d.month_le
  have hmonth' := d.one_le_month
  have hsame : d.year = before.year → d.month = before.month → d.day ≤ daysInMonth before.year before.month :=
    fun hy hm => hy ▸ hm ▸ hd
  have hbefore := before.day_le
  have hbmonth := before.month_le
  unfold Before next
  split
  · dsimp only
    omega
  · split
    · dsimp only
      by_cases hy : d.year = before.year <;> by_cases hm : d.month = before.month
      · have := hsame hy hm
        omega
      all_goals omega
    · dsimp only
      by_cases hy : d.year = before.year <;> by_cases hm : d.month = before.month
      · have := hsame hy hm
        omega
      all_goals omega

/-! ## Texts -/

/-- The year is written with four digits and no sign. -/
def FourDigitYear (d : PlainDate) : Prop := 0 ≤ d.year ∧ d.year ≤ 9999

instance (d : PlainDate) : Decidable d.FourDigitYear := inferInstanceAs (Decidable (_ ∧ _))

def yearText (d : PlainDate) : List Char :=
  if d.FourDigitYear then digits 4 d.year.toNat
  else (if d.year < 0 then '-' else '+') :: digits 6 d.year.natAbs

/-- The ISO 8601 text of a day. -/
def text (d : PlainDate) : String :=
  String.ofList (d.yearText ++ '-' :: (digits 2 d.month ++ '-' :: digits 2 d.day))

/-- Within the four-digit years the texts are in the order of the days. -/
theorem text_lt_text_iff (h : d.FourDigitYear) (h' : d'.FourDigitYear) : d.text < d'.text ↔ d.Before d' := by
  have hday := daysInMonth_le d.year d.month
  have hday' := daysInMonth_le d'.year d'.month
  have hd := d.day_le
  have hd' := d'.day_le
  have hm := d.month_le
  have hm' := d'.month_le
  obtain ⟨hlow, hhigh⟩ := h
  obtain ⟨hlow', hhigh'⟩ := h'
  have hdash : ¬ '-' < '-' := by decide
  rw [String.lt_iff_toList_lt, text, text, String.toList_ofList, String.toList_ofList, yearText, yearText,
    if_pos ⟨hlow, hhigh⟩, if_pos ⟨hlow', hhigh'⟩, append_lt_append_iff (by simp only [length_digits]),
    List.cons_lt_cons_iff, append_lt_append_iff (by simp only [length_digits]), List.cons_lt_cons_iff]
  rw [digits_lt_iff (by omega) (by omega), digits_inj (by omega) (by omega), digits_lt_iff (by omega) (by omega),
    digits_inj (by omega) (by omega), digits_lt_iff (by omega) (by omega)]
  simp only [hdash, true_and, false_or, Before]
  omega

/-- The text of any other year comes before those. -/
theorem text_lt_of_not_fourDigitYear (h : ¬ d.FourDigitYear) (h' : d'.FourDigitYear) : d.text < d'.text := by
  rw [String.lt_iff_toList_lt, text, text, String.toList_ofList, String.toList_ofList, yearText, yearText,
    if_neg h, if_pos h']
  have hsign : ∀ n, (if d.year < 0 then '-' else '+') < Nat.digitChar (n % 10) := fun n => by
    have hall : ∀ k : Fin 10, '-' < Nat.digitChar k ∧ '+' < Nat.digitChar k := by decide
    split
    · exact (hall ⟨n % 10, Nat.mod_lt n (by decide)⟩).1
    · exact (hall ⟨n % 10, Nat.mod_lt n (by decide)⟩).2
  exact List.cons_lt_cons_iff.2 (.inl (hsign _))

/-- No text of a day lies between that of a day and that of the next. -/
theorem text_lt_next_iff (h : before.FourDigitYear) (h' : before.next.FourDigitYear) :
    d.text < before.next.text ↔ ¬ before.text < d.text := by
  by_cases hd : d.FourDigitYear
  · rw [text_lt_text_iff hd h', text_lt_text_iff h hd, before_next_iff]
  · have hlt := text_lt_of_not_fourDigitYear hd h
    exact iff_of_true (text_lt_of_not_fourDigitYear hd h') (lt_asymm hlt)

end PlainDate

end CalendarDays
