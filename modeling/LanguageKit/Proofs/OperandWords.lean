import LanguageKit.Proofs.FixedWidthReading
import LanguageKit.Proofs.InstructionTable
import LanguageKit.Proofs.Spelling

/-!
# Which texts are words

Every spelling of a number is read with its value. Here is the converse: a text that is read is
a spelling of what is read, so that no text is taken for a word that does not spell one. A word
is read exactly from the spellings of the numbers in its signed or unsigned range that are
congruent to it.
-/

namespace LanguageKit.Program

open Text

/-- Digits are read exactly with the number they spell. -/
theorem magnitude?_eq_some_iff {radix value : Nat} {digits : List Char} (hradix : radix ≤ 16) :
    magnitude? radix digits = some value ↔ Numeral radix value digits := by
  refine ⟨fun h => ?_, fun h => h.magnitude? hradix⟩
  unfold magnitude? at h
  split at h
  · contradiction
  rename_i hnonempty
  have hne : digits ≠ [] := by simpa using hnonempty
  clear hnonempty
  induction digits using List.reverseRecOn generalizing value with
  | nil => exact absurd rfl hne
  | append_singleton front c ih =>
    rw [List.foldlM_append, Option.bind_eq_bind, Option.bind_eq_some_iff] at h
    obtain ⟨before, hbefore, hlast⟩ := h
    simp only [List.foldlM_cons, List.foldlM_nil, bind_pure] at hlast
    obtain ⟨digit, hdigit, rfl⟩ := Option.map_eq_some_iff.mp hlast
    have hspelled := (digitValue?_eq_some_iff hradix).mp hdigit
    cases front with
    | nil =>
      obtain rfl : 0 = before := Option.some.inj hbefore
      rw [Nat.zero_mul, Nat.zero_add]
      exact .single hspelled
    | cons first rest => exact .snoc (ih hbefore (List.cons_ne_nil first rest)) hspelled

/-- A text is read without sign exactly with the number it spells. -/
theorem unsigned?_eq_some_iff {value : Nat} {text : List Char} :
    unsigned? text = some value ↔ Unsigned value text := by
  refine ⟨fun h => ?_, fun h => h.unsigned?⟩
  obtain ⟨-, hradix⟩ := FixedWidth.splitRadix_range text
  rw [FixedWidth.unsigned?_eq, magnitude?_eq_some_iff hradix] at h
  generalize hparts : FixedWidth.splitRadix text = parts at h
  unfold FixedWidth.splitRadix at hparts
  split at hparts <;> subst hparts
  · exact .hexadecimal (.inl rfl) h
  · exact .hexadecimal (.inr rfl) h
  · exact .decimal h

/-- A text is read exactly with the number it spells. -/
theorem signed?_eq_some_iff {value : Int} {text : List Char} :
    signed? text = some value ↔ Signed value text := by
  refine ⟨fun h => ?_, fun h => h.signed?⟩
  rw [FixedWidth.signed?_eq, Option.map_eq_some_iff] at h
  obtain ⟨magnitude, hmagnitude, rfl⟩ := h
  have hspelled := unsigned?_eq_some_iff.mp hmagnitude
  generalize hparts : FixedWidth.splitSign text = parts at hspelled ⊢
  unfold FixedWidth.splitSign at hparts
  split at hparts <;> subst hparts
  · exact .minus hspelled
  · exact .plain hspelled

/-- A text spells at most one number. -/
theorem Signed.unique {value other : Int} {text : List Char} (h : Signed value text)
    (hother : Signed other text) : value = other :=
  Option.some.inj (h.signed?.symm.trans hother.signed?)

/-- A word belongs to a value exactly if the value is in one of the two ranges and congruent to
the word. -/
theorem wordOfValue?_eq_some_iff {value : Int} {word : Int32} :
    wordOfValue? value = some word ↔
      -2 ^ 31 ≤ value ∧ value ≤ 2 ^ 32 - 1 ∧ word.toInt ≡ value [ZMOD 2 ^ 32] := by
  rw [IntegerMachine.toInt_modEq_iff, wordOfValue?]
  split
  · rename_i hrange
    rw [Option.some_inj, eq_comm]
    exact ⟨fun hword => ⟨by omega, by omega, hword⟩, fun h => h.2.2⟩
  · rename_i hrange
    exact ⟨fun hnone => by contradiction, fun h => absurd ⟨by omega, by omega⟩ hrange⟩

/-- Operand words are read exactly. A word is read from the texts that spell a number in its
signed or its unsigned range to which the word is congruent, and a text spells at most one
number. Reading with numbers of fixed width brings the same without an overflow, whatever the
number of the digits. No text is both a word and the name of a label, and a word that is written
in decimal is read as the same word. -/
theorem operand_words_exact (text : List Char) (word : Int32) :
    (readWord? text = some word ↔
      ∃ value, Signed value text ∧ -2 ^ 31 ≤ value ∧ value ≤ 2 ^ 32 - 1 ∧
        word.toInt ≡ value [ZMOD 2 ^ 32]) ∧
    (∀ value other, Signed value text → Signed other text → value = other) ∧
    FixedWidth.readWord text = .ok (readWord? text) ∧
    (readWord? text = some word → isLabelName text = false) ∧
    readWord? (wordText word).toList = some word := by
  refine ⟨?_, fun value other => Signed.unique, FixedWidth.readWord_eq text, ?_,
    readWord?_wordText word⟩
  · rw [readWord?, Option.bind_eq_some_iff]
    simp only [signed?_eq_some_iff, wordOfValue?_eq_some_iff]
  · intro hread
    cases hname : isLabelName text with
    | false => rfl
    | true =>
      rw [readWord?_of_isName (isLabelName_iff.mp hname)] at hread
      contradiction

/-- The least word in hexadecimal; and zeros in front do not count. -/
example : readWord? "-0x80000000".toList = some Int32.minValue ∧
    readWord? "0x000000000000000000ffffffff".toList = some (-1) := by
  decide

end LanguageKit.Program
