import Mathlib.Algebra.GroupWithZero.Nat
import LanguageKit.Proofs.AcceptableLines
import LanguageKit.Proofs.LabelMistakes

/-!
# What assembling a text reports

The first line that is not acceptable is reported, with its bytes and its number, whatever is
wrong with labels anywhere. Only a text whose lines are all acceptable is reported for its
labels: for the first name that is used and never defined, then for the first name that is
defined again, and at last for an address that does not fit into a word. What is reported
about a line says where the line is, and what is reported about labels says nothing of a
place.
-/

namespace LanguageKit.Program

open Text

/-- The names that lines define, each with the address of the next word, from an address
on. -/
def definedFrom : Nat → List (List Char) → List (Name × Nat)
  | _, [] => []
  | address, line :: lines =>
    (definedOn line).map (·, address) ++ definedFrom (address + wordCount line) lines

/-- The names that lines define and use, in the order in which they stand in the text. -/
def mentionedOn (lines : List (List Char)) : List Name :=
  lines.flatMap fun line => definedOn line ++ usedOn line

/-- What assembling lines that are all acceptable comes to. -/
inductive Verdict (lines : List (List Char)) : Except AssemblyError (Array Int32) → Prop where
  /-- The first name that is used and never defined is reported. -/
  | undefined (before : List Name) (name : Name) (after : List Name)
      (hused : lines.flatMap usedOn = before ++ name :: after)
      (hbefore : ∀ earlier ∈ before, earlier ∈ lines.flatMap definedOn)
      (hname : name ∉ lines.flatMap definedOn) :
      Verdict lines (.error (.undefinedLabel name))
  /-- When all names that are used are defined, the first name that is defined again is
  reported, by its place among the names of the text. -/
  | twice (hdefined : ∀ name ∈ lines.flatMap usedOn, name ∈ lines.flatMap definedOn)
      (before : List Name) (name : Name) (after : List Name)
      (hagain : lines.flatMap definedOn = before ++ name :: after) (hbefore : before.Nodup)
      (hname : name ∈ before) :
      Verdict lines
        (.error (.build (.boundTwice ⟨(mentionedOn lines).eraseDups.idxOf name⟩)))
  /-- When no name is defined twice either, an address that is used and does not fit into a
  word is reported. -/
  | tooLong (hdefined : ∀ name ∈ lines.flatMap usedOn, name ∈ lines.flatMap definedOn)
      (hunique : (lines.flatMap definedOn).Nodup) (entry : Name × Nat)
      (hentry : entry ∈ definedFrom 0 lines) (hused : entry.1 ∈ lines.flatMap usedOn)
      (hfar : Builder.maxAddress < entry.2) :
      Verdict lines (.error (.build .tooLong))
  /-- In all other cases there is a program, with the words of the lines. -/
  | assembled (hdefined : ∀ name ∈ lines.flatMap usedOn, name ∈ lines.flatMap definedOn)
      (hunique : (lines.flatMap definedOn).Nodup)
      (hfits : ∀ entry ∈ definedFrom 0 lines, entry.1 ∈ lines.flatMap usedOn →
        entry.2 ≤ Builder.maxAddress)
      (code : Array Int32) (hsize : code.size = (lines.map wordCount).sum) :
      Verdict lines (.ok code)

/-- A diagnostic that says where it belongs: it has the bytes of a line of the text, and the
number of that line among its notes. -/
def Located (source : String) (diagnostic : Diagnostic) : Prop :=
  ∃ before line after, splitLines source.toList = before ++ line :: after ∧
    diagnostic.span = some ⟨byteSize before.flatten, byteSize before.flatten + byteSize line⟩ ∧
    "line " ++ natText (before.length + 1) ∈ diagnostic.notes

section Lines

variable {lines : List (List Char)} {statements : List Statement}

/-- Lines that say what statements say have their instructions counted. -/
theorem counted_statements (h : List.Forall₂ Says lines statements) : Counted statements := by
  induction h with
  | nil => exact nofun
  | cons hsays _ ih =>
    intro statement hstatement
    rcases List.mem_cons.mp hstatement with rfl | hstatement
    · exact hsays.counted
    · exact ih statement hstatement

/-- The definitions of the statements are those of the lines. -/
theorem definitions_statements (h : List.Forall₂ Says lines statements) (address : Nat) :
    definitions address statements = definedFrom address lines := by
  induction h generalizing address with
  | nil => rfl
  | cons hsays _ ih => rw [definitions, definedFrom, hsays.labels, hsays.words, ih]

/-- The names that are defined by lines are those of their definitions. -/
theorem map_fst_definedFrom (address : Nat) (lines : List (List Char)) :
    (definedFrom address lines).map Prod.fst = lines.flatMap definedOn := by
  induction lines generalizing address with
  | nil => rfl
  | cons line lines ih =>
    rw [definedFrom, List.map_append, ih, List.flatMap_cons, List.map_map]
    congr 1
    exact List.map_id _

/-- The references of the statements are the names that the lines use. -/
theorem references_statements (h : List.Forall₂ Says lines statements) :
    references statements = lines.flatMap usedOn := by
  unfold references
  induction h with
  | nil => rfl
  | cons hsays _ ih =>
    rw [List.flatMap_cons, List.filterMap_append, ih, hsays.names, List.flatMap_cons]

/-- The statements mention the names of the lines in their order. -/
theorem mentions_statements (h : List.Forall₂ Says lines statements) :
    statements.flatMap Statement.mentions = mentionedOn lines := by
  unfold mentionedOn
  induction h with
  | nil => rfl
  | cons hsays _ ih =>
    rw [List.flatMap_cons, Statement.mentions, ih, hsays.labels, hsays.names, List.flatMap_cons]

/-- The statements have the words of the lines. -/
theorem length_code_statements (h : List.Forall₂ Says lines statements) :
    (code statements).length = (lines.map wordCount).sum := by
  unfold code
  rw [List.length_map]
  induction h with
  | nil => rfl
  | cons hsays _ ih =>
    rw [List.flatMap_cons, List.length_append, ih, hsays.words, List.map_cons, List.sum_cons]

/-- Assembling statements comes to the verdict on the lines that say the same. -/
theorem verdict_statements (h : List.Forall₂ Says lines statements) :
    Verdict lines (ofStatements statements) := by
  have hcounts := counted_statements h
  have htable := definitions_statements h 0
  have huses := references_statements h
  have hlabels : (definitions 0 statements).map Prod.fst = lines.flatMap definedOn := by
    rw [htable, map_fst_definedFrom]
  cases hfound : (lines.flatMap usedOn).find? fun name =>
      decide (name ∉ lines.flatMap definedOn) with
  | some name =>
    obtain ⟨hname, before, after, hsplit, hbefore⟩ := List.find?_eq_some_iff_append.mp hfound
    rw [ofStatements_of_undefined hcounts (by rwa [huses, hlabels])]
    exact .undefined before name after hsplit (by simpa using hbefore) (by simpa using hname)
  | none =>
    have hall : ∀ name ∈ lines.flatMap usedOn, name ∈ lines.flatMap definedOn := by
      simpa using List.find?_eq_none.mp hfound
    have hdefined : ∀ name ∈ references statements,
        name ∈ (definitions 0 statements).map Prod.fst := by rwa [huses, hlabels]
    by_cases hunique : (lines.flatMap definedOn).Nodup
    · have hnodup : ((definitions 0 statements).map Prod.fst).Nodup := by rwa [hlabels]
      by_cases hfits : ∀ entry ∈ definedFrom 0 lines, entry.1 ∈ lines.flatMap usedOn →
          entry.2 ≤ Builder.maxAddress
      · rw [ofStatements_of_wellLabelled hcounts ⟨hdefined, hnodup, by rwa [htable, huses]⟩]
        exact .assembled hall hunique hfits _ (length_code_statements h)
      · have hfar : ∃ entry ∈ definedFrom 0 lines, entry.1 ∈ lines.flatMap usedOn ∧
            Builder.maxAddress < entry.2 := by
          simpa only [not_forall, not_le, exists_prop] using hfits
        rw [ofStatements_of_far hcounts hdefined hnodup (by rwa [htable, huses])]
        obtain ⟨entry, hentry, hused, hlarge⟩ := hfar
        exact .tooLong hall hunique entry hentry hused hlarge
    · obtain ⟨before, name, after, hagain, hbefore, hname, hresult⟩ :=
        ofStatements_of_twice hcounts hdefined (by rwa [hlabels])
      rw [hresult, mentions_statements h]
      exact .twice hall before name after (hlabels.symm.trans hagain) hbefore hname

/-- What is reported about labels has no place. -/
theorem Verdict.no_place {error : AssemblyError} (h : Verdict lines (.error error)) :
    error.diagnostic.span = none ∧ error.diagnostic.notes = [] := by
  cases h <;> exact ⟨rfl, rfl⟩

/-- What is reported about labels is not about a line. -/
theorem Verdict.not_line {number : Nat} {span : Span} {cause : LineError} :
    ¬ Verdict lines (.error (.line number span cause)) := nofun

end Lines

section Source

variable {source : String}

/-- Assembling a text whose lines are all acceptable comes to the verdict on them. -/
theorem verdict_of_acceptable (h : ∀ line ∈ splitLines source.toList, Acceptable line) :
    Verdict (splitLines source.toList) (assemble source) := by
  obtain ⟨statements, hread, hsays⟩ := exists_mapM_read h 1 0
  have hassemble : assemble source = ofStatements statements := by
    unfold assemble readSource sourceLines
    rw [hread]
    rfl
  rw [hassemble]
  exact verdict_statements hsays

/-- A text with a line that is not acceptable is reported for the first of them. -/
theorem exists_first_bad_line (h : ∃ line ∈ splitLines source.toList, ¬ Acceptable line) :
    ∃ before line after cause, splitLines source.toList = before ++ line :: after ∧
      (∀ earlier ∈ before, Acceptable earlier) ∧ ¬ Acceptable line ∧
      readLine line = .error cause ∧
      assemble source = .error (.line (before.length + 1)
        ⟨byteSize before.flatten, byteSize before.flatten + byteSize line⟩ cause) := by
  obtain ⟨before, line, after, hlines, hbefore, hline⟩ := exists_first h
  obtain ⟨cause, hcause⟩ := exists_error_of_not_acceptable hline
  refine ⟨before, line, after, cause, hlines, hbefore, hline, hcause, ?_⟩
  unfold assemble
  rw [readSource_eq_error hlines hbefore hcause]
  rfl

/-- A line is acceptable exactly when assembling it alone reports no line. -/
theorem acceptable_iff_alone {line : List Char} (h : line ∈ splitLines source.toList) :
    Acceptable line ↔
      ∀ number span cause, assemble (String.ofList line) ≠ .error (.line number span cause) := by
  have halone : splitLines (String.ofList line).toList = [line] := by
    rw [String.toList_ofList]
    exact splitLines_of_mem h
  constructor
  · intro hline number span cause hassemble
    have hverdict := verdict_of_acceptable fun other hother =>
      List.mem_singleton.mp (halone ▸ hother) ▸ hline
    rw [hassemble] at hverdict
    exact Verdict.not_line hverdict
  · intro hnone
    by_contra hline
    obtain ⟨before, _, _, cause, -, -, -, -, hassemble⟩ :=
      exists_first_bad_line ⟨line, by rw [halone]; exact List.mem_singleton_self line, hline⟩
    exact hnone _ _ cause hassemble

end Source

end LanguageKit.Program

namespace LanguageKit

open Program Text

/-- Whether a line is acceptable shows when it is assembled alone. If some line of a text is
not, the first such line is reported, by its bytes and its number, with the words that it
would be reported with alone. If all lines are, there is a verdict on their labels. -/
theorem assemble_reports (source : String) :
    (∀ line ∈ splitLines source.toList, Acceptable line ↔
      ∀ number span cause, assemble (String.ofList line) ≠ .error (.line number span cause)) ∧
    ((∃ line ∈ splitLines source.toList, ¬ Acceptable line) →
      ∃ before line after cause, splitLines source.toList = before ++ line :: after ∧
        (∀ earlier ∈ before, Acceptable earlier) ∧ ¬ Acceptable line ∧
        readLine line = .error cause ∧
        (assemble source).mapError AssemblyError.diagnostic = .error
          { stage := .assembler
            message := cause.message
            span := some ⟨byteSize before.flatten, byteSize before.flatten + byteSize line⟩
            notes := ["line " ++ natText (before.length + 1)] }) ∧
    ((∀ line ∈ splitLines source.toList, Acceptable line) →
      Verdict (splitLines source.toList) (assemble source)) := by
  refine ⟨fun line hline => acceptable_iff_alone hline, fun hbad => ?_, verdict_of_acceptable⟩
  obtain ⟨before, line, after, cause, hlines, hbefore, hline, hcause, hassemble⟩ :=
    exists_first_bad_line hbad
  refine ⟨before, line, after, cause, hlines, hbefore, hline, hcause, ?_⟩
  rw [hassemble]
  rfl

example : assemble "; é\nj nowhere\nfrob\nx: x:\n" =
    .error (.line 3 ⟨15, 20⟩ (.unknownMnemonic "frob".toList)) := rfl

/-- A report says where it belongs exactly when some line is not acceptable; a report on a
text whose lines are all acceptable has neither a place nor a note. -/
theorem located_iff_not_acceptable {source : String} {error : AssemblyError}
    (h : assemble source = .error error) :
    (Located source error.diagnostic ↔ ∃ line ∈ splitLines source.toList, ¬ Acceptable line) ∧
      ((∀ line ∈ splitLines source.toList, Acceptable line) →
        error.diagnostic.span = none ∧ error.diagnostic.notes = []) := by
  have hplain : (∀ line ∈ splitLines source.toList, Acceptable line) →
      error.diagnostic.span = none ∧ error.diagnostic.notes = [] := fun hall =>
    (h ▸ verdict_of_acceptable hall).no_place
  refine ⟨⟨?_, fun hbad => ?_⟩, hplain⟩
  · rintro ⟨before, line, after, -, hspan, -⟩
    by_contra hnone
    have hall : ∀ line ∈ splitLines source.toList, Acceptable line := by simpa using hnone
    rw [(hplain hall).1] at hspan
    cases hspan
  · obtain ⟨before, line, after, cause, hlines, -, -, -, hassemble⟩ := exists_first_bad_line hbad
    rw [h] at hassemble
    cases hassemble
    exact ⟨before, line, after, hlines, rfl, List.mem_singleton_self _⟩

/-- The second line of this text is reported with its place. -/
theorem located_iff_not_acceptable_frob :
    assemble "nop\nfrob\n" = .error (.line 2 ⟨4, 9⟩ (.unknownMnemonic "frob".toList)) ∧
      ((Located "nop\nfrob\n"
            (AssemblyError.line 2 ⟨4, 9⟩ (.unknownMnemonic "frob".toList)).diagnostic ↔
          ∃ line ∈ splitLines "nop\nfrob\n".toList, ¬ Acceptable line) ∧
        ((∀ line ∈ splitLines "nop\nfrob\n".toList, Acceptable line) →
          (AssemblyError.line 2 ⟨4, 9⟩ (.unknownMnemonic "frob".toList)).diagnostic.span = none ∧
            (AssemblyError.line 2 ⟨4, 9⟩ (.unknownMnemonic "frob".toList)).diagnostic.notes =
              [])) := by
  have hassemble :
      assemble "nop\nfrob\n" = .error (.line 2 ⟨4, 9⟩ (.unknownMnemonic "frob".toList)) := rfl
  exact ⟨hassemble, located_iff_not_acceptable hassemble⟩

/-- A name that is never defined is reported without a place, although it stands on the first
line. -/
theorem not_located_nowhere :
    assemble "j nowhere\n" = .error (.undefinedLabel "nowhere".toList) ∧
      ¬ Located "j nowhere\n" (AssemblyError.undefinedLabel "nowhere".toList).diagnostic := by
  refine ⟨rfl, ?_⟩
  rintro ⟨before, line, after, -, hspan, -⟩
  cases hspan

end LanguageKit
