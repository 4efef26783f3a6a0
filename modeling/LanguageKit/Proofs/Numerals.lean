import LanguageKit.Program.Literal
import LanguageKit.Text.Decimal

/-!
# Numerals read back

A word is written in decimal and read as an operand. What is read is the word
that was written, whatever its sign and its size. The digits of a numeral are
the only characters in it besides a minus sign in front.
-/

namespace LanguageKit.Program

open Text

/-- A decimal digit counts its distance from zero. -/
theorem digitValue?_of_isDigit {c : Char} (h : c.isDigit = true) :
    digitValue? 10 c = some (c.toNat - '0'.toNat) := by
  have hrange : c.toNat ≤ 57 := (Char.isDigit_iff_toNat.mp h).2
  have hten : c.toNat - '0'.toNat < 10 := by
    simp only [Char.reduceToNat]
    omega
  unfold digitValue?
  rw [if_pos h]
  simp only [Option.filter_some, hten, decide_true, if_true]

/-- Digits are read in the order of their weights, on top of what stands in
front of them. -/
theorem foldlM_digits {digits : List Char} (h : ∀ c ∈ digits, c.isDigit = true) (value : Nat) :
    digits.foldlM (fun value c => (digitValue? 10 c).map (value * 10 + ·)) value =
      some (Nat.ofDigitChars 10 digits value) := by
  induction digits generalizing value with
  | nil => rfl
  | cons c rest ih =>
    have hc := digitValue?_of_isDigit (h c List.mem_cons_self)
    have hrest := ih fun other hother => h other (List.mem_cons_of_mem c hother)
    rw [List.foldlM_cons, hc, Nat.ofDigitChars_cons, Nat.mul_comm 10 value]
    exact hrest _

/-- A nonempty text of decimal digits has their value. -/
theorem magnitude?_of_digits {digits : List Char} (hne : digits ≠ [])
    (h : ∀ c ∈ digits, c.isDigit = true) :
    magnitude? 10 digits = some (Nat.ofDigitChars 10 digits 0) := by
  unfold magnitude?
  rw [if_neg (by simpa using hne)]
  exact foldlM_digits h 0

/-- A text of decimal digits is not taken for a hexadecimal number. -/
theorem unsigned?_of_digits {digits : List Char} (hne : digits ≠ [])
    (h : ∀ c ∈ digits, c.isDigit = true) :
    unsigned? digits = some (Nat.ofDigitChars 10 digits 0) := by
  unfold unsigned?
  split
  · exact absurd (h 'x' (by simp)) (by decide)
  · exact absurd (h 'X' (by simp)) (by decide)
  · exact magnitude?_of_digits hne h

/-- The decimal digits of a number are read as the number. -/
theorem unsigned?_toDigits (n : Nat) : unsigned? (Nat.toDigits 10 n) = some n := by
  have hdigits : ∀ c ∈ Nat.toDigits 10 n, c.isDigit = true := fun c hc =>
    Nat.isDigit_of_mem_toDigits (by omega) (by omega) hc
  rw [unsigned?_of_digits Nat.toDigits_ne_nil hdigits, Nat.ofDigitChars_ten_toDigits]

/-- The digits of a number do not begin with a minus sign, so it is read without
a sign. -/
theorem signed?_toDigits (n : Nat) : signed? (Nat.toDigits 10 n) = some (n : Int) := by
  unfold signed?
  split
  · rename_i rest h
    have hminus : '-' ∈ Nat.toDigits 10 n := by
      rw [h]
      exact List.mem_cons_self
    exact absurd (Nat.isDigit_of_mem_toDigits (by omega) (by omega) hminus) (by decide)
  · rw [unsigned?_toDigits]
    rfl

/-- A minus sign negates the number behind it. -/
theorem signed?_minus (n : Nat) : signed? ('-' :: Nat.toDigits 10 n) = some (-(n : Int)) := by
  rw [signed?, unsigned?_toDigits]
  rfl

/-- The decimal form of an integer is read as the integer. -/
theorem signed?_intText (i : Int) : signed? (intText i).toList = some i := by
  unfold intText natText
  split
  · rename_i h
    have habs : -(i.natAbs : Int) = i := by omega
    have hsign : ("-" ++ String.ofList (Nat.toDigits 10 i.natAbs)).toList =
        '-' :: Nat.toDigits 10 i.natAbs := by simp
    rw [hsign, signed?_minus, habs]
  · rename_i h
    have habs : (i.natAbs : Int) = i := by omega
    rw [String.toList_ofList, signed?_toDigits, habs]

/-- The value of a word belongs to that word. -/
theorem wordOfValue?_toInt (w : Int32) : wordOfValue? w.toInt = some w := by
  have hlow : -0x80000000 ≤ w.toInt := w.minValue_le_toInt
  have hhigh : w.toInt ≤ 0xffffffff := by
    have hlt := w.toInt_lt
    omega
  unfold wordOfValue?
  rw [if_pos ⟨hlow, hhigh⟩, Int32.ofInt_toInt]

/-- A word that is written in decimal is read as the same word. -/
theorem readWord?_wordText (w : Int32) : readWord? (wordText w).toList = some w := by
  unfold readWord? wordText
  rw [signed?_intText]
  exact wordOfValue?_toInt w

end LanguageKit.Program

namespace LanguageKit.Text

/-- A number is written with digits only. -/
theorem isDigit_of_mem_natText {n : Nat} {c : Char} (h : c ∈ (natText n).toList) :
    c.isDigit = true := by
  rw [natText, String.toList_ofList] at h
  exact Nat.isDigit_of_mem_toDigits (by omega) (by omega) h

/-- A word is written with digits and a minus sign. -/
theorem of_mem_wordText {w : Int32} {c : Char} (h : c ∈ (wordText w).toList) :
    c.isDigit = true ∨ c = '-' := by
  unfold wordText intText at h
  split at h
  · rw [String.toList_append] at h
    rcases List.mem_append.mp h with hsign | hdigit
    · exact Or.inr (List.mem_singleton.mp hsign)
    · exact Or.inl (isDigit_of_mem_natText hdigit)
  · exact Or.inl (isDigit_of_mem_natText h)

/-- The text of a word is not empty. -/
theorem wordText_ne_nil (w : Int32) : (wordText w).toList ≠ [] := by
  unfold wordText intText natText
  split
  · simp
  · simp

/-- An address is written with digits only, its padding included. -/
theorem isDigit_of_mem_addressText {n : Nat} {c : Char} (h : c ∈ (addressText n).toList) :
    c.isDigit = true := by
  unfold addressText at h
  rw [String.toList_ofList] at h
  rcases List.mem_append.mp h with hzero | hdigit
  · rw [List.eq_of_mem_replicate hzero]
    decide
  · exact Nat.isDigit_of_mem_toDigits (by omega) (by omega) hdigit

/-- The text of an address is not empty. -/
theorem addressText_ne_nil (n : Nat) : (addressText n).toList ≠ [] := by
  simp [addressText, Nat.toDigits_ne_nil]

end LanguageKit.Text
