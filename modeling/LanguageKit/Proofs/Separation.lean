import Mathlib.Data.List.Basic
import LanguageKit.Program.Assembly

/-!
# Texts put together and taken apart

A text that was put together from parts is cut into the same parts again: lines
at the ends of the lines, pieces at a separator that none of them holds, and a
tight text out of the blanks around it.
-/

namespace LanguageKit.Text

/-- A text that begins and ends with characters that are not blank. The empty text
is tight. -/
def Tight (text : List Char) : Prop :=
  (∀ c, text.head? = some c → isBlank c = false) ∧
    ∀ c, text.getLast? = some c → isBlank c = false

/-- A text without any blank is tight. -/
theorem tight_of_forall {text : List Char} (h : ∀ c ∈ text, isBlank c = false) : Tight text :=
  ⟨fun c hc => h c (List.mem_of_head? hc), fun c hc => h c (List.mem_of_getLast? hc)⟩

/-- Two nonempty tight texts stay tight with anything between them. -/
theorem tight_append {first last : List Char} (hfirst : Tight first) (hlast : Tight last)
    (hne : first ≠ []) (hne' : last ≠ []) (middle : List Char) :
    Tight (first ++ (middle ++ last)) := by
  constructor
  · intro c hc
    rw [List.head?_append_of_ne_nil _ hne] at hc
    exact hfirst.1 c hc
  · intro c hc
    rw [← List.append_assoc, List.getLast?_append_of_ne_nil _ hne'] at hc
    exact hlast.2 c hc

/-- Trimming on the left removes exactly the blanks in front of a tight text. -/
theorem trimLeft_append {left text : List Char} (hleft : ∀ c ∈ left, isBlank c = true)
    (htext : ∀ c, text.head? = some c → isBlank c = false) : trimLeft (left ++ text) = text := by
  unfold trimLeft
  rw [List.dropWhile_append_of_pos hleft]
  cases text with
  | nil => rfl
  | cons c rest =>
    have hc := htext c rfl
    rw [List.dropWhile_cons_of_neg (by simp [hc])]

/-- Nothing is left of a text of blanks. -/
theorem trimLeft_of_blank {text : List Char} (h : ∀ c ∈ text, isBlank c = true) :
    trimLeft text = [] := by
  have hnil := trimLeft_append h (by simp : ∀ c, [].head? = some c → isBlank c = false)
  rwa [List.append_nil] at hnil

/-- Trimming removes exactly the blanks around a tight text. -/
theorem trim_append (left right : List Char) {text : List Char}
    (hleft : ∀ c ∈ left, isBlank c = true) (hright : ∀ c ∈ right, isBlank c = true)
    (htext : Tight text) : trim (left ++ (text ++ right)) = text := by
  obtain ⟨hhead, hlast⟩ := htext
  have hreverse : ∀ c ∈ right.reverse, isBlank c = true := fun c hc =>
    hright c (List.mem_reverse.mp hc)
  by_cases hne : text = []
  · subst hne
    have hall : ∀ c ∈ left ++ right, isBlank c = true := by
      intro c hc
      rcases List.mem_append.mp hc with hc | hc
      · exact hleft c hc
      · exact hright c hc
    unfold trim
    rw [List.nil_append, trimLeft_of_blank hall]
    rfl
  · have hfront : trimLeft (left ++ (text ++ right)) = text ++ right := by
      apply trimLeft_append hleft
      intro c hc
      rw [List.head?_append_of_ne_nil _ hne] at hc
      exact hhead c hc
    unfold trim trimRight
    rw [hfront, List.reverse_append, trimLeft_append hreverse, List.reverse_reverse]
    intro c hc
    rw [List.head?_reverse] at hc
    exact hlast c hc

/-- A tight text is not trimmed. -/
theorem trim_of_tight {text : List Char} (h : Tight text) : trim text = text := by
  have htrim := trim_append [] [] (by simp) (by simp) h
  rwa [List.nil_append, List.append_nil] at htrim

/-- Blanks in front of a tight text are removed. -/
theorem trim_append_left {left text : List Char} (hleft : ∀ c ∈ left, isBlank c = true)
    (htext : Tight text) : trim (left ++ text) = text := by
  have htrim := trim_append left [] hleft (by simp) htext
  rwa [List.append_nil] at htrim

/-- A text without the separator is a single part. -/
theorem parts_of_not_mem {separator : Char} {text : List Char} (h : separator ∉ text) :
    parts separator text = [text] := by
  induction text with
  | nil => rfl
  | cons c rest ih =>
    have hc : c ≠ separator := fun heq => h (heq ▸ List.mem_cons_self)
    have hrest := ih fun hmem => h (List.mem_cons_of_mem c hmem)
    unfold parts at hrest ⊢
    simp only [List.cons.injEq] at hrest
    rw [separate, if_neg hc, hrest.1, hrest.2]

/-- What stands in front of the first separator is the first part. -/
theorem parts_append_cons {separator : Char} {first : List Char} (h : separator ∉ first)
    (rest : List Char) :
    parts separator (first ++ separator :: rest) = first :: parts separator rest := by
  induction first with
  | nil =>
    rw [List.nil_append, parts, separate, if_pos rfl]
    rfl
  | cons c first ih =>
    have hc : c ≠ separator := fun heq => h (heq ▸ List.mem_cons_self)
    have hrest := ih fun hmem => h (List.mem_cons_of_mem c hmem)
    unfold parts at hrest ⊢
    simp only [List.cons.injEq] at hrest
    rw [List.cons_append, separate, if_neg hc, hrest.1, hrest.2]

end LanguageKit.Text

namespace LanguageKit.Program

open Text

/-- The first line of a text goes up to the first end of a line. -/
theorem splitLines_append_cons {line : List Char} (h : '\n' ∉ line) (rest : List Char) :
    splitLines (line ++ '\n' :: rest) = (line ++ ['\n']) :: splitLines rest := by
  induction line with
  | nil => simp [splitLines]
  | cons c line ih =>
    have hc : c ≠ '\n' := fun heq => h (heq ▸ List.mem_cons_self)
    have hrest := ih fun hmem => h (List.mem_cons_of_mem c hmem)
    rw [List.cons_append, splitLines, if_neg hc, hrest]
    rfl

/-- Lines that are joined, each with its end, are the lines of the text. -/
theorem splitLines_flatMap {lines : List (List Char)} (h : ∀ line ∈ lines, '\n' ∉ line) :
    splitLines (lines.flatMap (· ++ ['\n'])) = lines.map (· ++ ['\n']) := by
  induction lines with
  | nil => rfl
  | cons line lines ih =>
    have hline := h line List.mem_cons_self
    have hrest := ih fun other hother => h other (List.mem_cons_of_mem line hother)
    rw [List.flatMap_cons, List.append_assoc, List.singleton_append,
      splitLines_append_cons hline, hrest, List.map_cons]

/-- When every line can be read, the lines are read into their statements,
wherever they stand. -/
theorem mapM_read_of_ok {α : Type} {lines : List α} {text : α → List Char}
    {statement : α → Statement} (h : ∀ line ∈ lines, readLine (text line) = .ok (statement line))
    (number offset : Nat) :
    (locateLines number offset (lines.map text)).mapM SourceLine.read =
      .ok (lines.map statement) := by
  induction lines generalizing number offset with
  | nil => rfl
  | cons line lines ih =>
    have hline := h line List.mem_cons_self
    have hrest := ih fun other hother => h other (List.mem_cons_of_mem line hother)
    rw [List.map_cons, locateLines, List.mapM_cons, SourceLine.read, hline, hrest]
    rfl

/-- When some line cannot be read, the first such line is reported. -/
theorem mapM_read_of_error {lines : List (List Char)}
    (h : ∃ line ∈ lines, ∃ cause, readLine line = .error cause) (number offset : Nat) :
    ∃ error, (locateLines number offset lines).mapM SourceLine.read = .error error := by
  induction lines generalizing number offset with
  | nil => simp at h
  | cons line lines ih =>
    rw [locateLines, List.mapM_cons, SourceLine.read]
    cases hline : readLine line with
    | error cause => exact ⟨_, rfl⟩
    | ok statement =>
      have hrest : ∃ line ∈ lines, ∃ cause, readLine line = .error cause := by
        obtain ⟨other, hother, cause, hcause⟩ := h
        rcases List.mem_cons.mp hother with rfl | hother
        · rw [hline] at hcause
          contradiction
        · exact ⟨other, hother, cause, hcause⟩
      obtain ⟨error, herror⟩ := ih hrest (number + 1) (offset + byteSize line)
      exact ⟨error, by rw [herror]; rfl⟩

end LanguageKit.Program
