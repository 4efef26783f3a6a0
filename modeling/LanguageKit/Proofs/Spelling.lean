import LanguageKit.Proofs.ListingRoundTrip

/-!
# Spellings of arguments

A word can be spelled in many ways: in decimal or in hexadecimal, in either case,
with zeros in front, with a sign or in the unsigned range. A name is spelled in one
way. This module says what the spellings are, without regard to how they are read,
and shows that each is read as the argument it spells.
-/

namespace LanguageKit.Program

open Text Listing

/-- A character is the digit of a value in a radix, in either case. -/
def DigitOf (radix value : Nat) (c : Char) : Prop :=
  value < radix ∧ c.toLower = Nat.digitChar value

/-- Digits spell a number in a radix, the last digit with the least weight. -/
inductive Numeral (radix : Nat) : Nat → List Char → Prop where
  /-- A single digit. -/
  | single {value : Nat} {c : Char} (digit : DigitOf radix value c) : Numeral radix value [c]
  /-- Digits and one more. -/
  | snoc {front value : Nat} {digits : List Char} {c : Char} (before : Numeral radix front digits)
      (digit : DigitOf radix value c) : Numeral radix (front * radix + value) (digits ++ [c])

/-- A text spells an unsigned number. -/
inductive Unsigned : Nat → List Char → Prop where
  /-- In decimal. -/
  | decimal {value : Nat} {digits : List Char} (numeral : Numeral 10 value digits) :
      Unsigned value digits
  /-- In hexadecimal, behind a mark. -/
  | hexadecimal {value : Nat} {mark : Char} {digits : List Char} (marked : mark = 'x' ∨ mark = 'X')
      (numeral : Numeral 16 value digits) : Unsigned value ('0' :: mark :: digits)

/-- A text spells a number with at most one minus sign. -/
inductive Signed : Int → List Char → Prop where
  /-- Without a sign. -/
  | plain {value : Nat} {text : List Char} (number : Unsigned value text) : Signed value text
  /-- With a minus sign. -/
  | minus {value : Nat} {text : List Char} (number : Unsigned value text) :
      Signed (-value) ('-' :: text)

/-- An ASCII letter or an underscore. -/
def Initial (c : Char) : Prop := ('a' ≤ c ∧ c ≤ 'z') ∨ ('A' ≤ c ∧ c ≤ 'Z') ∨ c = '_'

/-- A name of a label: a letter or an underscore, and behind it such characters and
digits. -/
def IsName (name : Name) : Prop :=
  ∃ c rest, name = c :: rest ∧ Initial c ∧ ∀ d ∈ rest, Initial d ∨ ('0' ≤ d ∧ d ≤ '9')

/-- A text spells an argument: a word by a number in its signed or unsigned range, and a
name by itself. -/
inductive Spelled : Argument → List Char → Prop where
  /-- A word. -/
  | word {value : Int} {text : List Char} (number : Signed value text)
      (low : -0x80000000 ≤ value) (high : value ≤ 0xffffffff) :
      Spelled (.word (Int32.ofInt value)) text
  /-- A name. -/
  | name {name : Name} (valid : IsName name) : Spelled (.name name) name

/-- Upper case letters have a lower case, and other characters stay. -/
theorem toNat_toLower (c : Char) :
    c.toLower.toNat = if 65 ≤ c.toNat ∧ c.toNat ≤ 90 then c.toNat + 32 else c.toNat := by
  have hupper : (c.val ≥ 'A'.val ∧ c.val ≤ 'Z'.val) ↔ (65 ≤ c.toNat ∧ c.toNat ≤ 90) := Iff.rfl
  unfold Char.toLower
  split
  · rename_i h
    have hrange := hupper.mp h
    have hlt : c.val.toNat + 32 < 2 ^ 32 := by
      change c.toNat + 32 < 2 ^ 32
      omega
    rw [if_pos hrange]
    change (c.val + 32).toNat = c.val.toNat + 32
    rw [UInt32.toNat_add]
    exact Nat.mod_eq_of_lt hlt
  · rename_i h
    rw [if_neg fun hrange => h (hupper.mpr hrange)]

/-- The digits up to nine, and the letters behind them. -/
theorem toNat_digitChar : ∀ value < 16,
    (Nat.digitChar value).toNat = if value < 10 then value + 48 else value + 87 := by
  decide

/-- The code of a digit: a decimal one, or a letter in lower or in upper case. -/
theorem DigitOf.toNat_eq {radix value : Nat} {c : Char} (h : DigitOf radix value c)
    (hradix : radix ≤ 16) :
    (value < 10 ∧ c.toNat = value + 48) ∨
      (10 ≤ value ∧ value < 16 ∧ (c.toNat = value + 87 ∨ c.toNat = value + 55)) := by
  obtain ⟨hvalue, hlower⟩ := h
  have hcode := congrArg Char.toNat hlower
  rw [toNat_toLower, toNat_digitChar value (by omega)] at hcode
  split at hcode <;> split at hcode <;> omega

/-- The value of a digit by its code: decimal digits, then letters in lower and in upper case. -/
theorem digitValue?_eq (radix : Nat) (c : Char) :
    digitValue? radix c =
      (if 48 ≤ c.toNat ∧ c.toNat ≤ 57 then some (c.toNat - 48)
        else if 97 ≤ c.toNat ∧ c.toNat ≤ 102 then some (c.toNat - 97 + 10)
        else if 65 ≤ c.toNat ∧ c.toNat ≤ 70 then some (c.toNat - 65 + 10)
        else none).filter (· < radix) := by
  have hdecimal : c.isDigit = true ↔ 48 ≤ c.toNat ∧ c.toNat ≤ 57 := Char.isDigit_iff_toNat
  have hlower : ('a' ≤ c && c ≤ 'f') = true ↔ 97 ≤ c.toNat ∧ c.toNat ≤ 102 := by
    rw [Bool.and_eq_true, decide_eq_true_eq, decide_eq_true_eq]
    exact Iff.rfl
  have hupper : ('A' ≤ c && c ≤ 'F') = true ↔ 65 ≤ c.toNat ∧ c.toNat ≤ 70 := by
    rw [Bool.and_eq_true, decide_eq_true_eq, decide_eq_true_eq]
    exact Iff.rfl
  unfold digitValue?
  simp only [hdecimal, hlower, hupper, Char.reduceToNat]

/-- A digit is read with its value. -/
theorem DigitOf.digitValue? {radix value : Nat} {c : Char} (h : DigitOf radix value c)
    (hradix : radix ≤ 16) : Program.digitValue? radix c = some value := by
  have hvalue : value < radix := h.1
  rw [digitValue?_eq]
  rcases h.toNat_eq hradix with ⟨hsmall, hcode⟩ | ⟨hten, hsixteen, hcode | hcode⟩
  · have hfirst : 48 ≤ c.toNat ∧ c.toNat ≤ 57 := by omega
    have hback : c.toNat - 48 = value := by omega
    simp [hfirst, hback, hvalue]
  · have hfirst : ¬ (48 ≤ c.toNat ∧ c.toNat ≤ 57) := by omega
    have hsecond : 97 ≤ c.toNat ∧ c.toNat ≤ 102 := by omega
    have hback : c.toNat - 97 + 10 = value := by omega
    rw [if_neg hfirst, if_pos hsecond, hback]
    simp [hvalue]
  · have hfirst : ¬ (48 ≤ c.toNat ∧ c.toNat ≤ 57) := by omega
    have hsecond : ¬ (97 ≤ c.toNat ∧ c.toNat ≤ 102) := by omega
    have hthird : 65 ≤ c.toNat ∧ c.toNat ≤ 70 := by omega
    have hback : c.toNat - 65 + 10 = value := by omega
    rw [if_neg hfirst, if_neg hsecond, if_pos hthird, hback]
    simp [hvalue]

/-- A character has a value in a radix exactly if it is the digit of that value. -/
theorem digitValue?_eq_some_iff {radix value : Nat} {c : Char} (hradix : radix ≤ 16) :
    digitValue? radix c = some value ↔ DigitOf radix value c := by
  refine ⟨fun h => ?_, fun h => h.digitValue? hradix⟩
  rw [digitValue?_eq, Option.filter_eq_some_iff] at h
  obtain ⟨hcode, hless⟩ := h
  have hvalue : value < radix := by simpa using hless
  refine ⟨hvalue, Char.toNat_inj.mp ?_⟩
  rw [toNat_toLower, toNat_digitChar value (by omega)]
  split at hcode
  · obtain rfl := Option.some.inj hcode
    rw [if_neg (by omega), if_pos (by omega)]
    omega
  · split at hcode
    · obtain rfl := Option.some.inj hcode
      rw [if_neg (by omega), if_neg (by omega)]
      omega
    · split at hcode
      · obtain rfl := Option.some.inj hcode
        rw [if_pos (by omega), if_neg (by omega)]
        omega
      · contradiction

/-- Digits are read with the number they spell. -/
theorem Numeral.magnitude? {radix value : Nat} {digits : List Char} (h : Numeral radix value digits)
    (hradix : radix ≤ 16) : Program.magnitude? radix digits = some value := by
  have hfold : digits.foldlM
      (fun value c => (Program.digitValue? radix c).map (value * radix + ·)) 0 = some value := by
    induction h with
    | single digit =>
      simp [digit.digitValue? hradix]
    | snoc before digit ih =>
      rw [List.foldlM_append, ih]
      simp [digit.digitValue? hradix]
  have hne : digits ≠ [] := by
    cases h <;> simp
  unfold Program.magnitude?
  rw [if_neg (by simpa using hne)]
  exact hfold

/-- Every character of a numeral is a digit. -/
theorem Numeral.digit_of_mem {radix value : Nat} {digits : List Char}
    (h : Numeral radix value digits) {c : Char} (hc : c ∈ digits) : ∃ weight, DigitOf radix weight c := by
  induction h with
  | single digit =>
    obtain rfl := List.mem_singleton.mp hc
    exact ⟨_, digit⟩
  | snoc before digit ih =>
    rcases List.mem_append.mp hc with hc | hc
    · exact ih hc
    · obtain rfl := List.mem_singleton.mp hc
      exact ⟨_, digit⟩

/-- Decimal digits are characters from zero to nine. -/
theorem Numeral.decimal_of_mem {value : Nat} {digits : List Char} (h : Numeral 10 value digits)
    {c : Char} (hc : c ∈ digits) : c.isDigit = true := by
  obtain ⟨weight, hdigit⟩ := h.digit_of_mem hc
  have hweight : weight < 10 := hdigit.1
  have hcode := hdigit.toNat_eq (by omega)
  rw [Char.isDigit_iff_toNat]
  simp only [Char.reduceToNat]
  omega

/-- An unsigned number is read with its value. -/
theorem Unsigned.unsigned? {value : Nat} {text : List Char} (h : Unsigned value text) :
    Program.unsigned? text = some value := by
  cases h with
  | decimal numeral =>
    have hmagnitude := numeral.magnitude? (by omega)
    unfold Program.unsigned?
    split
    · exact absurd (numeral.decimal_of_mem (by simp : 'x' ∈ _)) (by decide)
    · exact absurd (numeral.decimal_of_mem (by simp : 'X' ∈ _)) (by decide)
    · exact hmagnitude
  | hexadecimal marked numeral =>
    rcases marked with rfl | rfl <;> exact numeral.magnitude? (by omega)

/-- An unsigned number does not begin with a minus sign. -/
theorem Unsigned.ne_minus {value : Nat} {rest : List Char} : ¬ Unsigned value ('-' :: rest) := by
  rintro ⟨numeral⟩
  exact absurd (numeral.decimal_of_mem List.mem_cons_self) (by decide)

/-- A number is read with its value. -/
theorem Signed.signed? {value : Int} {text : List Char} (h : Signed value text) :
    Program.signed? text = some value := by
  cases h with
  | plain number =>
    unfold Program.signed?
    split
    · exact absurd number Unsigned.ne_minus
    · rw [number.unsigned?]
      rfl
  | minus number =>
    rw [Program.signed?, number.unsigned?]
    rfl

/-- The lower case letters lie in one range. -/
theorem isLower_iff_range {c : Char} : c.isLower = true ↔ 'a' ≤ c ∧ c ≤ 'z' := by
  change (decide ('a' ≤ c) && decide (c ≤ 'z')) = true ↔ _
  rw [Bool.and_eq_true, decide_eq_true_eq, decide_eq_true_eq]

/-- A name may begin with what it may begin with when it is spelled. -/
theorem beginsName_iff {c : Char} : beginsName c = true ↔ Initial c := by
  have hupper : c.isUpper = true ↔ 'A' ≤ c ∧ c ≤ 'Z' := decide_eq_true_iff
  change ((c.isUpper || c.isLower) || c == '_') = true ↔ _
  rw [Bool.or_eq_true, Bool.or_eq_true, hupper, isLower_iff_range, beq_iff_eq]
  exact or_assoc.trans or_left_comm

/-- A name may go on with what it may go on with when it is spelled. -/
theorem continuesName_iff {c : Char} :
    continuesName c = true ↔ Initial c ∨ ('0' ≤ c ∧ c ≤ '9') := by
  have hdigit : c.isDigit = true ↔ '0' ≤ c ∧ c ≤ '9' := Char.isDigit_iff_toNat
  change ((c.isAlpha || c.isDigit) || c == '_') = true ↔ _
  rw [← beginsName_iff, beginsName, Bool.or_eq_true, Bool.or_eq_true, Bool.or_eq_true, hdigit]
  exact or_right_comm

/-- The label names are the texts that are names. -/
theorem isLabelName_iff {name : Name} : isLabelName name = true ↔ IsName name := by
  cases name with
  | nil => simp [isLabelName, IsName]
  | cons c rest =>
    rw [isLabelName, Bool.and_eq_true, List.all_eq_true, beginsName_iff]
    simp only [continuesName_iff]
    constructor
    · rintro ⟨hfirst, hrest⟩
      exact ⟨c, rest, rfl, hfirst, hrest⟩
    · rintro ⟨first, others, heq, hfirst, hrest⟩
      obtain ⟨rfl, rfl⟩ := List.cons.inj heq
      exact ⟨hfirst, hrest⟩

/-- The first character of a name lies among the letters. -/
theorem Initial.toNat_range {c : Char} (h : Initial c) : 65 ≤ c.toNat ∧ c.toNat ≤ 122 := by
  rcases h with ⟨hlow, hhigh⟩ | ⟨hlow, hhigh⟩ | rfl
  · have hlow : 97 ≤ c.toNat := hlow
    have hhigh : c.toNat ≤ 122 := hhigh
    omega
  · have hlow : 65 ≤ c.toNat := hlow
    have hhigh : c.toNat ≤ 90 := hhigh
    omega
  · decide

/-- The first character of a name is no digit. -/
theorem Initial.isDigit_eq_false {c : Char} (h : Initial c) : c.isDigit = false := by
  obtain ⟨hlow, -⟩ := h.toNat_range
  rw [Bool.eq_false_iff, ne_eq, Char.isDigit_iff_toNat]
  simp only [Char.reduceToNat]
  omega

/-- The first character of a name has no value in decimal. -/
theorem Initial.digitValue? {c : Char} (h : Initial c) : Program.digitValue? 10 c = none := by
  unfold Program.digitValue?
  rw [if_neg (by simp [h.isDigit_eq_false])]
  split
  · simp
  · split <;> simp

/-- A name is not read as a word. -/
theorem readWord?_of_isName {name : Name} (h : IsName name) : readWord? name = none := by
  obtain ⟨c, rest, rfl, hfirst, -⟩ := h
  obtain ⟨hlow, -⟩ := hfirst.toNat_range
  have hnumber : signed? (c :: rest) = none := by
    unfold signed? unsigned? magnitude?
    split
    · rename_i heq
      obtain ⟨rfl, -⟩ := List.cons.inj heq
      simp at hlow
    · split
      · rename_i heq
        obtain ⟨rfl, -⟩ := List.cons.inj heq
        simp at hlow
      · rename_i heq
        obtain ⟨rfl, -⟩ := List.cons.inj heq
        simp at hlow
      · simp [hfirst.digitValue?]
  rw [readWord?, hnumber]
  rfl

/-- An argument is read from each of its spellings. -/
theorem Spelled.readArgument {argument : Argument} {text : List Char} (h : Spelled argument text) :
    Program.readArgument text = .ok argument := by
  unfold Program.readArgument
  cases h with
  | @word value text number low high =>
    have hword : wordOfValue? value = some (Int32.ofInt value) := if_pos ⟨low, high⟩
    rw [readWord?, number.signed?, Option.bind_some, hword]
  | name valid =>
    rw [readWord?_of_isName valid]
    dsimp only
    rw [if_pos (isLabelName_iff.mpr valid)]

/-- Digits, letters and the underscore between their cases are solid. -/
theorem isSolid_of_toNat {c : Char}
    (h : (48 ≤ c.toNat ∧ c.toNat ≤ 57) ∨ (65 ≤ c.toNat ∧ c.toNat ≤ 122)) : isSolid c = true := by
  have hblank : isBlank c = false := by
    simp only [isBlank, Bool.or_eq_false_iff, Bool.and_eq_false_iff, decide_eq_false_iff_not,
      beq_eq_false_iff_ne]
    omega
  have hne : c ≠ ',' ∧ c ≠ ':' ∧ c ≠ ';' := by
    refine ⟨?_, ?_, ?_⟩ <;> rintro rfl <;> simp at h
  simp [isSolid, hblank, hne]

/-- A numeral is not empty, and nothing in it separates. -/
theorem Numeral.solid {radix value : Nat} {digits : List Char} (h : Numeral radix value digits)
    (hradix : radix ≤ 16) : digits ≠ [] ∧ ∀ c ∈ digits, isSolid c = true := by
  refine ⟨by cases h <;> simp, fun c hc => isSolid_of_toNat ?_⟩
  obtain ⟨weight, hdigit⟩ := h.digit_of_mem hc
  have hcode := hdigit.toNat_eq hradix
  omega

/-- A number is not empty, and nothing in it separates. -/
theorem Signed.solid {value : Int} {text : List Char} (h : Signed value text) :
    text ≠ [] ∧ ∀ c ∈ text, isSolid c = true := by
  have hunsigned {value : Nat} {text : List Char} (h : Unsigned value text) :
      text ≠ [] ∧ ∀ c ∈ text, isSolid c = true := by
    cases h with
    | decimal numeral => exact numeral.solid (by omega)
    | hexadecimal marked numeral =>
      obtain ⟨-, hdigits⟩ := numeral.solid (by omega)
      refine ⟨by simp, List.forall_mem_cons.mpr ⟨by decide, List.forall_mem_cons.mpr ⟨?_, hdigits⟩⟩⟩
      rcases marked with rfl | rfl <;> decide
  cases h with
  | plain number => exact hunsigned number
  | minus number =>
    exact ⟨by simp, List.forall_mem_cons.mpr ⟨by decide, (hunsigned number).2⟩⟩

/-- A spelling is not empty, and nothing in it separates. -/
theorem Spelled.solid {argument : Argument} {text : List Char} (h : Spelled argument text) :
    text ≠ [] ∧ ∀ c ∈ text, isSolid c = true := by
  cases h with
  | word number => exact number.solid
  | name valid =>
    obtain ⟨c, rest, rfl, hfirst, hrest⟩ := valid
    refine ⟨by simp, fun d hd => isSolid_of_toNat ?_⟩
    rcases List.mem_cons.mp hd with rfl | hd
    · exact Or.inr hfirst.toNat_range
    · rcases hrest d hd with hletter | hdigit
      · exact Or.inr hletter.toNat_range
      · exact Or.inl hdigit

end LanguageKit.Program
