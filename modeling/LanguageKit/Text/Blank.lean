/-!
# Blanks, trimming and separation

Texts are read as lists of characters here. A blank is a code point with the
white-space property. Trimming removes blanks at both ends, and `separate` cuts
a text at every occurrence of one separator.
-/

namespace LanguageKit.Text

/-- Whether a character has the white-space property: twenty-five code points,
of which six are ASCII. -/
def isBlank (c : Char) : Bool :=
  let code := c.toNat
  (9 ≤ code && code ≤ 13) || code == 0x20 || code == 0x85 || code == 0xa0 ||
    code == 0x1680 || (0x2000 ≤ code && code ≤ 0x200a) || code == 0x2028 ||
    code == 0x2029 || code == 0x202f || code == 0x205f || code == 0x3000

/-- The white space of ASCII programs is blank. -/
theorem isBlank_of_isWhitespace {c : Char} (h : c.isWhitespace = true) : isBlank c = true := by
  simp only [Char.isWhitespace, Bool.or_eq_true, decide_eq_true_eq] at h
  rcases h with ((rfl | rfl) | rfl) | rfl <;> rfl

/-- Removes the blanks in front of a text. -/
def trimLeft (text : List Char) : List Char := text.dropWhile isBlank

/-- Removes the blanks behind a text. -/
def trimRight (text : List Char) : List Char := (trimLeft text.reverse).reverse

/-- Removes the blanks at both ends of a text. -/
def trim (text : List Char) : List Char := trimRight (trimLeft text)

/-- Cuts a text at every occurrence of a separator, which is dropped. The first
component is the part before the first separator, the second the remaining
parts, so there is always at least one part. -/
def separate (separator : Char) : List Char → List Char × List (List Char)
  | [] => ([], [])
  | c :: rest =>
    let parts := separate separator rest
    if c = separator then ([], parts.1 :: parts.2) else (c :: parts.1, parts.2)

/-- The parts of a text between the occurrences of a separator. -/
def parts (separator : Char) (text : List Char) : List (List Char) :=
  (separate separator text).1 :: (separate separator text).2

/-- A text is its first part followed by the others, each with the separator in
front. -/
theorem separate_join (separator : Char) (text : List Char) :
    (separate separator text).1 ++ (separate separator text).2.flatMap (separator :: ·) =
      text := by
  induction text with
  | nil => rfl
  | cons c rest ih =>
    unfold separate
    dsimp only
    split
    · rename_i h
      rw [h, List.flatMap_cons, List.nil_append, List.cons_append, ih]
    · rw [List.cons_append, ih]

/-- No part holds the separator. -/
theorem not_mem_of_mem_parts {separator : Char} {text part : List Char}
    (h : part ∈ parts separator text) : separator ∉ part := by
  have general : separator ∉ (separate separator text).1 ∧
      ∀ other ∈ (separate separator text).2, separator ∉ other := by
    clear h
    induction text with
    | nil => simp [separate]
    | cons c rest ih =>
      obtain ⟨hfirst, hothers⟩ := ih
      unfold separate
      dsimp only
      split
      · refine ⟨List.not_mem_nil, ?_⟩
        intro other hother
        rcases List.mem_cons.1 hother with rfl | hother
        · exact hfirst
        · exact hothers other hother
      · rename_i hc
        refine ⟨?_, hothers⟩
        intro hmem
        rcases List.mem_cons.1 hmem with heq | hmem
        · exact hc heq.symm
        · exact hfirst hmem
  rcases List.mem_cons.1 h with rfl | hother
  · exact general.1
  · exact general.2 part hother

end LanguageKit.Text
