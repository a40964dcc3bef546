import DtoSchema.Proofs.Text.Trimming
import DtoSchema.Text.Integer

/-!
# Numerals

An integer is written by decimal digits behind an optional minus sign, and marks of a long number may
stand behind the digits.  A `Numeral` is such a text, and its value is that of its digits in base
ten.  A numeral without marks is read as its value if that fits into 64 bits, and is not read
otherwise (`int64?_plain`).  Every integer is printed as its canonical numeral
(`exists_isCanonical`).
-/

namespace DtoSchema.Text

/-- The marks of a long number. -/
def isLongMark (b : UInt8) : Bool := b == ascii 'l' || b == ascii 'L'

/-- An integer as it is written. -/
structure Numeral where
  /-- A minus sign stands in front of the digits. -/
  negative : Bool
  /-- The decimal digits. -/
  digits : Text
  /-- What stands behind the digits. -/
  marks : Text
  digits_ne_nil : digits ≠ [] := by decide
  digits_isDigit : digits.all isDigit := by decide
  marks_isLongMark : marks.all isLongMark := by decide

namespace Numeral

/-- The numeral without its marks. -/
def plain (n : Numeral) : Text := onlyIf n.negative "-" ++ n.digits

/-- The numeral as it is written. -/
def text (n : Numeral) : Text := n.plain ++ n.marks

/-- The integer that the numeral stands for. -/
def value (n : Numeral) : ℤ :=
  let magnitude : ℕ := Nat.ofDigits 10 (n.digits.reverse.map digitValue)
  if n.negative then -magnitude else magnitude

/-- The numeral is written in the shortest way: it has no marks, and it starts with a zero only if it
is a zero without sign. -/
def isCanonical (n : Numeral) : Prop :=
  n.marks = [] ∧ (n.digits.head? = some (ascii '0') → n.digits = "0" ∧ n.negative = false)

end Numeral

/-! ### Digits -/

/-- A digit is neither a sign nor a mark. -/
lemma digit_spec {b : UInt8} (hb : isDigit b) :
    b ≠ ascii '-' ∧ b ≠ ascii '+' ∧ isLongMark b = false := by
  revert b
  decide +kernel

/-- The digit that is printed for a number below ten. -/
lemma digitChar_spec {d : ℕ} (hd : d < 10) : isDigit (ascii d.digitChar) ∧
    digitValue (ascii d.digitChar) = d ∧ (ascii d.digitChar = ascii '0' → d = 0) := by
  revert d
  decide

lemma digitsValue_append (s : Text) (b : UInt8) :
    digitsValue (s ++ [b]) = 10 * digitsValue s + digitValue b := by
  simp [digitsValue]

/-- Digits are read in base ten. -/
lemma digitsValue_eq_ofDigits (s : Text) :
    digitsValue s = Nat.ofDigits 10 (s.reverse.map digitValue) := by
  induction s using List.reverseRecOn with
  | nil => rfl
  | append_singleton s b ih =>
    rw [digitsValue_append, ih, List.reverse_append, List.reverse_singleton, List.singleton_append,
      List.map_cons, Nat.ofDigits_cons]
    omega

/-- A number is printed by its last digit behind the number without that digit. -/
lemma ofNat_eq (n : ℕ) : ofNat n =
    if n < 10 then [ascii n.digitChar] else ofNat (n / 10) ++ [ascii (n % 10).digitChar] := by
  unfold ofNat
  rw [Nat.toDigits_eq_if (by omega)]
  split <;> simp

lemma ofNat_ne_nil (n : ℕ) : ofNat n ≠ [] := by
  simp [ofNat]

lemma all_isDigit_ofNat (n : ℕ) : (ofNat n).all isDigit := by
  induction n using Nat.strong_induction_on with
  | _ n ih =>
    rw [ofNat_eq]
    split
    · next hn => simp [(digitChar_spec hn).1]
    · have hrest := ih (n / 10) (by omega)
      have hlast := (digitChar_spec (Nat.mod_lt n (by omega))).1
      rw [List.all_append, hrest]
      simp [hlast]

/-- A number is read as it was printed. -/
lemma digitsValue_ofNat (n : ℕ) : digitsValue (ofNat n) = n := by
  induction n using Nat.strong_induction_on with
  | _ n ih =>
    rw [ofNat_eq]
    split
    · next hn => simpa [digitsValue] using (digitChar_spec hn).2.1
    · rw [digitsValue_append, ih (n / 10) (by omega),
        (digitChar_spec (Nat.mod_lt n (by omega))).2.1]
      omega

/-- Only zero is printed with a zero in front. -/
lemma eq_zero_of_head?_ofNat {n : ℕ} (h : (ofNat n).head? = some (ascii '0')) : n = 0 := by
  induction n using Nat.strong_induction_on with
  | _ n ih =>
    rw [ofNat_eq] at h
    split at h
    · next hn => exact (digitChar_spec hn).2.2 (by simpa using h)
    · rw [List.head?_append_of_ne_nil _ (ofNat_ne_nil _)] at h
      have hzero := ih (n / 10) (by omega) h
      omega

/-! ### Reading and printing -/

namespace Numeral

lemma value_eq (n : Numeral) :
    n.value = if n.negative then -(digitsValue n.digits : ℤ) else digitsValue n.digits := by
  rw [value, digitsValue_eq_ofDigits]

lemma signed?_plain (n : Numeral) : signed? n.plain = some n.value := by
  have hread : natural? n.digits = some (digitsValue n.digits) :=
    if_pos ⟨n.digits_ne_nil, n.digits_isDigit⟩
  rw [plain, value_eq]
  cases hsign : n.negative with
  | true =>
    have hminus : onlyIf true "-" ++ n.digits = ascii '-' :: n.digits := rfl
    rw [hminus, signed?, if_pos rfl, hread]
    rfl
  | false =>
    have hplain : onlyIf false "-" ++ n.digits = n.digits := rfl
    rw [hplain]
    obtain ⟨b, s, hdigits⟩ := List.exists_cons_of_ne_nil n.digits_ne_nil
    have hb : isDigit b := List.all_eq_true.mp n.digits_isDigit b (by simp [hdigits])
    obtain ⟨hminus, hplus, -⟩ := digit_spec hb
    rw [hdigits] at hread ⊢
    rw [signed?, if_neg hminus, if_neg hplus, hread]
    rfl

lemma fitsInt64_iff (n : ℤ) : fitsInt64 n ↔ -2 ^ 63 ≤ n ∧ n < 2 ^ 63 := by
  simp only [fitsInt64, int64Bound, Bool.and_eq_true]
  norm_num

/-- A numeral without marks is read as its value if that is a signed 64-bit integer. -/
lemma int64?_plain (n : Numeral) : int64? n.plain =
    if -2 ^ 63 ≤ n.value ∧ n.value < 2 ^ 63 then some n.value else none := by
  rw [int64?, signed?_plain]
  split_ifs with hfits
  · exact Option.filter_eq_some_iff.mpr ⟨rfl, (fitsInt64_iff _).mpr hfits⟩
  · refine Option.filter_some_neg ?_
    rw [← Bool.not_eq_true, fitsInt64_iff]
    exact hfits

/-- The marks of a numeral are dropped. -/
lemma dropWhileEnd_text (n : Numeral) : dropWhileEnd isLongMark n.text = n.plain := by
  obtain ⟨init, b, hdigits⟩ :=
    (List.eq_nil_or_concat n.digits).resolve_left n.digits_ne_nil
  rw [List.concat_eq_append] at hdigits
  have hb : isDigit b := List.all_eq_true.mp n.digits_isDigit b (by simp [hdigits])
  have hplain : n.plain.reverse = b :: (onlyIf n.negative "-" ++ init).reverse := by
    simp [plain, hdigits]
  have hmarks : ∀ c ∈ n.marks.reverse, isLongMark c := by
    simpa using n.marks_isLongMark
  rw [dropWhileEnd, text, List.reverse_append, List.dropWhile_append_of_pos hmarks, hplain,
    List.dropWhile_cons_of_neg (by simp [(digit_spec hb).2.2]), ← hplain, List.reverse_reverse]

/-- Every integer is printed as a canonical numeral of that value. -/
lemma exists_isCanonical (n : ℤ) :
    ∃ m : Numeral, m.isCanonical ∧ m.value = n ∧ m.text = ofInt n := by
  have hzero : ofNat 0 = "0" := by decide
  cases n with
  | ofNat n =>
    refine ⟨⟨false, ofNat n, [], ofNat_ne_nil n, all_isDigit_ofNat n, rfl⟩, ⟨rfl, ?_⟩, ?_, ?_⟩
    · intro hhead
      obtain rfl := eq_zero_of_head?_ofNat hhead
      exact ⟨hzero, rfl⟩
    · simp [value_eq, digitsValue_ofNat]
    · simp [text, plain, onlyIf, ofInt]
  | negSucc n =>
    refine ⟨⟨true, ofNat (n + 1), [], ofNat_ne_nil _, all_isDigit_ofNat _, rfl⟩, ⟨rfl, ?_⟩, ?_, ?_⟩
    · intro hhead
      simpa using eq_zero_of_head?_ofNat hhead
    · simp [value_eq, digitsValue_ofNat, Int.negSucc_eq]
    · have hminus : utf8 "-" = [ascii '-'] := by decide
      simp [text, plain, onlyIf, ofInt, hminus]

end Numeral

end DtoSchema.Text
