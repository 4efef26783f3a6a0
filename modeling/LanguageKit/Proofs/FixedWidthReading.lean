import LanguageKit.Program.Literal
import Mathlib.Algebra.Order.Ring.Int
import Mathlib.Data.List.Induction

/-!
# Reading words with numbers of fixed width

A word can be read without numbers of any size: its digits are put together in sixty-four bits
without sign, the number goes on to sixty-four bits with sign, where it may be negated, and from
there to the thirty-two bits of a word, with or without sign. Products, sums and changes of
width are checked, so that a number which does not fit refuses the text; the negation is not
checked. Here it is shown that this brings the same as reading with integers, for digits of any
number, and that the negation never overflows.
-/

namespace LanguageKit.Program

/-- The result of an operation that nothing checks is outside its numbers. -/
inductive Overflow where
  /-- The negation of a number. -/
  | negation (number : Int64)

namespace FixedWidth

/-- A product, if it fits. -/
def product? (a b : UInt64) : Option UInt64 :=
  if a.toNat * b.toNat < 2 ^ 64 then some (a * b) else none

/-- A sum, if it fits. -/
def sum? (a b : UInt64) : Option UInt64 :=
  if a.toNat + b.toNat < 2 ^ 64 then some (a + b) else none

/-- A number with one more digit behind it, if the product with the radix and the sum with the
digit fit. -/
def withDigit? (radix : Nat) (value : UInt64) (c : Char) : Option UInt64 := do
  let digit ← digitValue? radix c
  let shifted ← product? value (UInt64.ofNat radix)
  sum? shifted (UInt64.ofNat digit)

/-- A text without the plus sign that may be in front of it. -/
def withoutPlus : List Char → List Char
  | '+' :: rest => rest
  | text => text

/-- Reads a number without minus sign in a radix. There may be a plus sign in front of it. -/
def parse? (radix : Nat) (text : List Char) : Option UInt64 :=
  let digits := withoutPlus text
  if digits.isEmpty then none else digits.foldlM (withDigit? radix) 0

/-- A number with sign, if it fits. -/
def toSigned? (number : UInt64) : Option Int64 :=
  if number.toNat < 2 ^ 63 then some number.toInt64 else none

/-- The negation of a number. The least number has none. -/
def negation (number : Int64) : Except Overflow Int64 :=
  if number = Int64.minValue then .error (.negation number) else .ok (-number)

/-- A word, if the number fits into its signed range. -/
def toWord? (number : Int64) : Option Int32 :=
  if -2 ^ 31 ≤ number.toInt ∧ number.toInt < 2 ^ 31 then some number.toInt32 else none

/-- The bits of a word, if the number fits into its unsigned range. -/
def toBits? (number : Int64) : Option UInt32 :=
  if 0 ≤ number.toInt ∧ number.toInt < 2 ^ 32 then some (UInt32.ofNat number.toInt.toNat)
  else none

/-- Whether there is a minus sign in front of a text, and the text behind it. -/
def splitSign : List Char → Bool × List Char
  | '-' :: rest => (true, rest)
  | text => (false, text)

/-- The radix of an unsigned number and its digits. -/
def splitRadix : List Char → Nat × List Char
  | '0' :: 'x' :: digits => (16, digits)
  | '0' :: 'X' :: digits => (16, digits)
  | digits => (10, digits)

/-- Whether a text begins with a digit. -/
def beginsWithDigit (radix : Nat) (text : List Char) : Bool :=
  (text.head?.bind (digitValue? radix)).isSome

/-- The word of a number that fits into one of the two ranges. -/
def narrow (number : Int64) : Option Int32 :=
  (toWord? number).or ((toBits? number).map UInt32.toInt32)

/-- Reads the digits of a word, which may be negated. The first of them is looked at before they
are put together, so that there is no sign between the radix and the digits. -/
def readDigits (negative : Bool) (radix : Nat) (digits : List Char) :
    Except Overflow (Option Int32) :=
  if beginsWithDigit radix digits then
    match (parse? radix digits).bind toSigned? with
    | none => .ok none
    | some magnitude => (if negative then negation magnitude else .ok magnitude).map narrow
  else .ok none

/-- Reads an operand word. -/
def readWord (text : List Char) : Except Overflow (Option Int32) :=
  let (negative, unsigned) := splitSign text
  let (radix, digits) := splitRadix unsigned
  readDigits negative radix digits

/-- The value of a magnitude behind a sign. -/
def withSign (negative : Bool) (magnitude : Nat) : Int :=
  if negative then -(magnitude : Int) else magnitude

variable {radix : Nat}

/-- A digit is less than its radix. -/
theorem digitValue?_lt {c : Char} {digit : Nat} (h : digitValue? radix c = some digit) :
    digit < radix := by
  unfold digitValue? at h
  simpa using (Option.filter_eq_some_iff.mp h).2

/-- One more digit brings the number that integers bring, as long as it fits. -/
theorem map_withDigit? (hradix : radix ≤ 16) (value : UInt64) (c : Char) :
    (withDigit? radix value c).map UInt64.toNat =
      ((digitValue? radix c).map (value.toNat * radix + ·)).filter (· < 2 ^ 64) := by
  unfold withDigit?
  cases hdigit : digitValue? radix c with
  | none => rfl
  | some digit =>
    have hless := digitValue?_lt hdigit
    have hbase : (UInt64.ofNat radix).toNat = radix := by
      rw [UInt64.toNat_ofNat', Nat.mod_eq_of_lt (by omega)]
    have hweight : (UInt64.ofNat digit).toNat = digit := by
      rw [UInt64.toNat_ofNat', Nat.mod_eq_of_lt (by omega)]
    simp only [product?, sum?, hbase, hweight, Option.bind_eq_bind, Option.bind_some,
      Option.map_some, Option.filter_some, decide_eq_true_eq]
    by_cases hproduct : value.toNat * radix < 2 ^ 64
    · have hshifted : (value * UInt64.ofNat radix).toNat = value.toNat * radix := by
        rw [UInt64.toNat_mul, hbase, Nat.mod_eq_of_lt hproduct]
      rw [if_pos hproduct, Option.bind_some, hshifted]
      by_cases hsum : value.toNat * radix + digit < 2 ^ 64
      · rw [if_pos hsum, if_pos hsum, Option.map_some, UInt64.toNat_add, hshifted, hweight,
          Nat.mod_eq_of_lt hsum]
      · rw [if_neg hsum, if_neg hsum, Option.map_none]
    · rw [if_neg hproduct, if_neg (by omega)]
      rfl

/-- Digits of any number are put together as with integers, as long as the result fits: once a
number does not fit, it does not fit with more digits. -/
theorem map_foldlM_withDigit? (hpos : 0 < radix) (hradix : radix ≤ 16) (digits : List Char) :
    (digits.foldlM (withDigit? radix) 0).map UInt64.toNat =
      (digits.foldlM (fun value c => (digitValue? radix c).map (value * radix + ·)) 0).filter
        (· < 2 ^ 64) := by
  induction digits using List.reverseRecOn with
  | nil => rfl
  | append_singleton digits c ih =>
    rw [List.foldlM_append, List.foldlM_append]
    generalize digits.foldlM (withDigit? radix) 0 = fixed at ih ⊢
    generalize digits.foldlM (fun value c => (digitValue? radix c).map (value * radix + ·)) 0 =
      exact at ih ⊢
    simp only [List.foldlM_cons, List.foldlM_nil, bind_pure, Option.bind_eq_bind]
    cases exact with
    | none =>
      obtain rfl : fixed = none := by simpa using ih
      rfl
    | some value =>
      rw [Option.filter_some] at ih
      by_cases hfits : value < 2 ^ 64
      · rw [if_pos (decide_eq_true hfits)] at ih
        obtain ⟨number, rfl, rfl⟩ := Option.map_eq_some_iff.mp ih
        exact map_withDigit? hradix number c
      · rw [if_neg (by simpa using hfits), Option.map_eq_none_iff] at ih
        rw [ih, Option.bind_some]
        symm
        rw [Option.bind_none, Option.map_none, Option.filter_eq_none_iff]
        intro result hresult
        obtain ⟨digit, -, rfl⟩ := Option.map_eq_some_iff.mp hresult
        have hgrows : value * 1 ≤ value * radix := Nat.mul_le_mul_left value hpos
        simp only [decide_eq_true_eq]
        omega

/-- Digits are read as with integers, as long as the number fits. -/
theorem map_parse? (hpos : 0 < radix) (hradix : radix ≤ 16) {digits : List Char}
    (hfirst : beginsWithDigit radix digits = true) :
    (parse? radix digits).map UInt64.toNat =
      (magnitude? radix digits).filter (· < 2 ^ 64) := by
  have hplain : withoutPlus digits = digits := by
    unfold withoutPlus
    split
    · have hplus : digitValue? radix '+' = none := rfl
      simp [beginsWithDigit, hplus] at hfirst
    · rfl
  have hsome : digits.isEmpty = false := by
    cases digits with
    | nil => contradiction
    | cons => rfl
  simp only [parse?, magnitude?, hplain, hsome, Bool.false_eq_true, if_false]
  exact map_foldlM_withDigit? hpos hradix digits

/-- What does not begin with a digit is no number. -/
theorem magnitude?_of_no_digit {digits : List Char}
    (hfirst : beginsWithDigit radix digits = false) : magnitude? radix digits = none := by
  cases digits with
  | nil => rfl
  | cons c rest =>
    have hdigit : digitValue? radix c = none := by simpa [beginsWithDigit] using hfirst
    unfold magnitude?
    rw [if_neg (by simp), List.foldlM_cons, hdigit]
    rfl

/-- The number of the digits has the value that they have with integers, if it fits into
sixty-four bits with sign. -/
theorem map_toSigned? (hpos : 0 < radix) (hradix : radix ≤ 16) {digits : List Char}
    (hfirst : beginsWithDigit radix digits = true) :
    ((parse? radix digits).bind toSigned?).map Int64.toInt =
      ((magnitude? radix digits).filter (· < 2 ^ 63)).map Int.ofNat := by
  have hparse := map_parse? hpos hradix hfirst
  generalize magnitude? radix digits = exact at hparse ⊢
  generalize parse? radix digits = parsed at hparse ⊢
  cases exact with
  | none =>
    obtain rfl : parsed = none := by simpa using hparse
    rfl
  | some value =>
    rw [Option.filter_some] at hparse ⊢
    by_cases hfits : value < 2 ^ 64
    · rw [if_pos (decide_eq_true hfits)] at hparse
      obtain ⟨number, rfl, rfl⟩ := Option.map_eq_some_iff.mp hparse
      simp only [Option.bind_some, toSigned?, decide_eq_true_eq]
      by_cases hsmall : number.toNat < 2 ^ 63
      · have hvalue : number.toInt64.toInt = number.toNat := by
          have hsame : number.toInt64 = Int64.ofNat number.toNat := by
            rw [← UInt64.toInt64_ofNat', UInt64.ofNat_toNat]
          rw [hsame, Int64.toInt_ofNat_of_lt hsmall]
        rw [if_pos hsmall, if_pos hsmall, Option.map_some, hvalue]
        rfl
      · rw [if_neg hsmall, if_neg hsmall, Option.map_none, Option.map_none]
    · have hlarge : ¬ value < 2 ^ 63 := by omega
      rw [if_neg (by simpa using hfits), Option.map_eq_none_iff] at hparse
      rw [hparse, if_neg (by simpa using hlarge)]
      rfl

/-- The negation of a number that is not below zero does not overflow. -/
theorem negation_of_nonneg {number : Int64} (h : 0 ≤ number.toInt) :
    ∃ negated, negation number = .ok negated ∧ negated.toInt = -number.toInt := by
  have hleast : number ≠ Int64.minValue := by
    rintro rfl
    contradiction
  have hupper := number.toInt_lt
  refine ⟨-number, if_neg hleast, ?_⟩
  rw [Int64.toInt_neg, Int.bmod_eq_of_le (by omega) (by omega)]

/-- A number in one of the two ranges is narrowed to the word of its value, and no other number
is. -/
theorem narrow_eq (number : Int64) : narrow number = wordOfValue? number.toInt := by
  unfold narrow toWord? toBits? wordOfValue?
  by_cases hsigned : -2 ^ 31 ≤ number.toInt ∧ number.toInt < 2 ^ 31
  · have hrange : -0x80000000 ≤ number.toInt ∧ number.toInt ≤ 0xffffffff := by omega
    rw [if_pos hsigned, if_pos hrange, Int32.ofInt_int64ToInt, Option.some_or]
  · rw [if_neg hsigned, Option.none_or]
    by_cases hunsigned : 0 ≤ number.toInt ∧ number.toInt < 2 ^ 32
    · have hrange : -0x80000000 ≤ number.toInt ∧ number.toInt ≤ 0xffffffff := by omega
      have hvalue : (number.toInt.toNat : Int) = number.toInt := Int.toNat_of_nonneg hunsigned.1
      rw [if_pos hunsigned, if_pos hrange, Option.map_some, UInt32.toInt32_ofNat',
        ← Int32.ofInt_eq_ofNat, hvalue]
    · have hrange : ¬ (-0x80000000 ≤ number.toInt ∧ number.toInt ≤ 0xffffffff) := by omega
      rw [if_neg hunsigned, if_neg hrange, Option.map_none]

/-- Without sign, a text has the value of its digits in its radix. -/
theorem unsigned?_eq (text : List Char) :
    unsigned? text = magnitude? (splitRadix text).1 (splitRadix text).2 := by
  fun_cases splitRadix text with
  | case1 digits => rfl
  | case2 digits => rfl
  | case3 text hlower hupper => rw [unsigned?.eq_3 text hlower hupper]

/-- The radix is sixteen or ten. -/
theorem splitRadix_range (text : List Char) :
    0 < (splitRadix text).1 ∧ (splitRadix text).1 ≤ 16 := by
  fun_cases splitRadix text with
  | case1 | case2 | case3 => simp

/-- A minus sign negates the value of the text behind it. -/
theorem signed?_eq (text : List Char) :
    signed? text = (unsigned? (splitSign text).2).map (withSign (splitSign text).1) := by
  fun_cases splitSign text with
  | case1 rest =>
    rw [signed?]
    cases unsigned? rest <;> rfl
  | case2 text hplain =>
    rw [signed?.eq_2 text hplain]
    cases unsigned? text <;> rfl

/-- A magnitude that does not fit into sixty-four bits with sign is no word behind any sign. -/
theorem wordOfValue?_withSign_of_large {magnitude : Nat} (h : 2 ^ 63 ≤ magnitude)
    (negative : Bool) : wordOfValue? (withSign negative magnitude) = none := by
  unfold wordOfValue? withSign
  split <;> exact if_neg (by omega)

/-- The digits of a word bring the word of their value behind the sign. -/
theorem readDigits_eq (hpos : 0 < radix) (hradix : radix ≤ 16) (negative : Bool)
    (digits : List Char) :
    readDigits negative radix digits =
      .ok (((magnitude? radix digits).map (withSign negative)).bind wordOfValue?) := by
  unfold readDigits
  by_cases hfirst : beginsWithDigit radix digits = true
  · have hmap := map_toSigned? hpos hradix hfirst
    rw [if_pos hfirst]
    generalize (parse? radix digits).bind toSigned? = signed at hmap ⊢
    generalize magnitude? radix digits = exact at hmap ⊢
    cases exact with
    | none =>
      obtain rfl : signed = none := by simpa using hmap
      rfl
    | some magnitude =>
      rw [Option.filter_some] at hmap
      by_cases hfits : magnitude < 2 ^ 63
      · rw [if_pos (decide_eq_true hfits), Option.map_some] at hmap
        obtain ⟨number, rfl, hvalue⟩ := Option.map_eq_some_iff.mp hmap
        have hnumber : number.toInt = magnitude := hvalue
        cases negative with
        | false =>
          have hword : narrow number = wordOfValue? (withSign false magnitude) := by
            rw [narrow_eq, hnumber]
            rfl
          exact congrArg Except.ok hword
        | true =>
          have hnonneg : 0 ≤ number.toInt := by omega
          obtain ⟨negated, hnegation, hnegated⟩ := negation_of_nonneg hnonneg
          have hword : narrow negated = wordOfValue? (withSign true magnitude) := by
            rw [narrow_eq, hnegated, hnumber]
            rfl
          dsimp only
          rw [if_pos rfl, hnegation]
          exact congrArg Except.ok hword
      · rw [if_neg (by simpa using hfits), Option.map_none, Option.map_eq_none_iff] at hmap
        have hlarge := wordOfValue?_withSign_of_large (Nat.le_of_not_lt hfits) negative
        rw [hmap, Option.map_some, Option.bind_some, hlarge]
  · rw [if_neg hfirst, magnitude?_of_no_digit (eq_false_of_ne_true hfirst)]
    rfl

/-- Reading with numbers of fixed width brings what reading with integers brings: nothing
overflows, and a number that does not fit on the way is no word. -/
theorem readWord_eq (text : List Char) : readWord text = .ok (readWord? text) := by
  obtain ⟨hpos, hradix⟩ := splitRadix_range (splitSign text).2
  rw [readWord?, signed?_eq, unsigned?_eq]
  exact readDigits_eq hpos hradix _ _

end FixedWidth

end LanguageKit.Program
