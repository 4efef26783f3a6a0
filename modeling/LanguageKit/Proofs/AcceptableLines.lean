import LanguageKit.Proofs.Spelling
import LanguageKit.Proofs.TwoPass

/-!
# Lines that are acceptable on their own

Whether a line can be read is a property of its text: what stands in front of its colons,
its mnemonic, its operands and their number. A line that is acceptable is read into the
names it defines and uses, and a line that is not is reported with its place, if the lines
in front of it are acceptable. No other line has a say in this.
-/

namespace LanguageKit.Program

open Text

/-- The parts of a line, without its comment, between its colons. -/
def pieces (line : List Char) : List (List Char) := parts ':' (line.takeWhile (· ≠ ';'))

/-- The texts in front of the colons of a line. -/
def headTexts (line : List Char) : List (List Char) := (pieces line).dropLast.map trim

/-- The text behind the last colon of a line. -/
def bodyText (line : List Char) : List Char := trim ((pieces line).getLastD [])

/-- The mnemonic of a line: the text behind the last colon up to its first blank. -/
def mnemonicText (line : List Char) : List Char := (bodyText line).takeWhile fun c => !isBlank c

/-- The texts of the operands of a line. -/
def argumentsOn (line : List Char) : List (List Char) :=
  argumentTexts ((bodyText line).drop ((mnemonicText line).length + 1))

/-- A line that is acceptable on its own. -/
structure Acceptable (line : List Char) : Prop where
  /-- In front of every colon stands an address or a name. -/
  heads : ∀ text ∈ headTexts line, isAddressColumn text = true ∨ isLabelName text = true
  /-- Behind them stands nothing, or the mnemonic of an opcode with as many operands as the
  opcode asks for, each of them a word or a name. -/
  body : bodyText line = [] ∨
    ∃ opcode, Opcode.ofMnemonic? (mnemonicText line) = some opcode ∧
      (∀ text ∈ argumentsOn line, (readWord? text).isSome = true ∨ isLabelName text = true) ∧
      (argumentsOn line).length = opcode.operandCount

/-- The names that a line defines. -/
def definedOn (line : List Char) : List Name := (headTexts line).filter isLabelName

/-- The names that a line uses as operands. -/
def usedOn (line : List Char) : List Name := (argumentsOn line).filter isLabelName

/-- The number of words that a line adds to the program. -/
def wordCount (line : List Char) : Nat :=
  if bodyText line = [] then 0 else (argumentsOn line).length + 1

/-- What a line says is what its statement says. -/
structure Says (line : List Char) (statement : Statement) : Prop where
  /-- The labels are the names that are defined. -/
  labels : statement.labels = definedOn line
  /-- The names among the words are the names that are used. -/
  names : statement.words.filterMap Argument.name? = usedOn line
  /-- There are as many words as the line adds. -/
  words : statement.words.length = wordCount line
  /-- There are as many arguments as the opcode asks for. -/
  counted : ∀ opcode arguments, statement.instruction = some (opcode, arguments) →
    arguments.length = opcode.operandCount

/-- A name is not an address. -/
theorem isAddressColumn_of_isLabelName {text : List Char} (h : isLabelName text = true) :
    isAddressColumn text = false := by
  obtain ⟨c, rest, rfl, hfirst, -⟩ := isLabelName_iff.mp h
  simp [isAddressColumn, hfirst.isDigit_eq_false]

/-- The text in front of a colon can be read when it is an address or a name, and then it
defines the name. -/
theorem readLabel_eq_ok {head : List Char}
    (h : isAddressColumn (trim head) = true ∨ isLabelName (trim head) = true) :
    readLabel head = .ok ([trim head].filter isLabelName) := by
  unfold readLabel
  dsimp only
  cases hname : isLabelName (trim head) with
  | true => simp [isAddressColumn_of_isLabelName hname, hname]
  | false =>
    have hcolumn : isAddressColumn (trim head) = true := by simpa [hname] using h
    simp [hcolumn, hname]

/-- The text in front of a colon cannot be read otherwise. -/
theorem isLabelName_of_readLabel {head : List Char} {labels : List Name}
    (h : readLabel head = .ok labels) :
    isAddressColumn (trim head) = true ∨ isLabelName (trim head) = true := by
  unfold readLabel at h
  dsimp only at h
  split at h
  · exact .inl ‹_›
  · split at h
    · exact .inr ‹_›
    · contradiction

/-- The texts in front of the colons define their names. -/
theorem flatten_map_filter (heads : List (List Char)) :
    (heads.map fun head => [trim head].filter isLabelName).flatten =
      (heads.map trim).filter isLabelName := by
  induction heads with
  | nil => rfl
  | cons head heads ih =>
    rw [List.map_cons, List.flatten_cons, ih]
    exact (List.filter_append [trim head] (heads.map trim)).symm

/-- An operand is read as a word or as a name. -/
theorem exists_readArgument {text : List Char}
    (h : (readWord? text).isSome = true ∨ isLabelName text = true) :
    ∃ argument, readArgument text = .ok argument ∧
      argument.name?.toList = [text].filter isLabelName := by
  unfold readArgument
  cases hname : isLabelName text with
  | true =>
    have hword := readWord?_of_isName (isLabelName_iff.mp hname)
    exact ⟨.name text, by rw [hword]; rfl, by simp [Argument.name?, hname]⟩
  | false =>
    rw [hname, or_iff_left Bool.false_ne_true] at h
    obtain ⟨word, hword⟩ := Option.isSome_iff_exists.mp h
    exact ⟨.word word, by rw [hword], by simp [Argument.name?, hname]⟩

/-- An operand cannot be read otherwise. -/
theorem isSome_of_readArgument {text : List Char} {argument : Argument}
    (h : readArgument text = .ok argument) :
    (readWord? text).isSome = true ∨ isLabelName text = true := by
  unfold readArgument at h
  split at h
  · rename_i word hword
    exact .inl (by rw [hword]; rfl)
  · split at h
    · exact .inr ‹_›
    · contradiction

/-- Operands are read one after the other. -/
theorem exists_readArguments {texts : List (List Char)}
    (h : ∀ text ∈ texts, (readWord? text).isSome = true ∨ isLabelName text = true) :
    ∃ arguments, texts.mapM readArgument = .ok arguments ∧ arguments.length = texts.length ∧
      arguments.filterMap Argument.name? = texts.filter isLabelName := by
  induction texts with
  | nil => exact ⟨[], rfl, rfl, rfl⟩
  | cons text texts ih =>
    obtain ⟨argument, hargument, hname⟩ := exists_readArgument (h text List.mem_cons_self)
    obtain ⟨arguments, hread, hlength, hnames⟩ :=
      ih fun other hother => h other (List.mem_cons_of_mem text hother)
    refine ⟨argument :: arguments, ?_, congrArg (· + 1) hlength, ?_⟩
    · rw [List.mapM_cons, hargument, hread]
      rfl
    · have hfirst : (argument :: arguments).filterMap Argument.name? =
          argument.name?.toList ++ arguments.filterMap Argument.name? := by
        cases hfound : argument.name? <;> simp [hfound]
      rw [hfirst, hname, hnames, ← List.filter_append, List.singleton_append]

/-- The body of an acceptable line is read into its instruction, with the names that the
line uses. -/
theorem exists_readInstruction {line : List Char} (h : Acceptable line) (labels : List Name) :
    ∃ instruction, readInstruction (bodyText line) = .ok instruction ∧
      ((⟨labels, instruction⟩ : Statement).words.filterMap Argument.name? = usedOn line) ∧
      (⟨labels, instruction⟩ : Statement).words.length = wordCount line ∧
      ∀ opcode arguments, instruction = some (opcode, arguments) →
        arguments.length = opcode.operandCount := by
  unfold readInstruction
  by_cases hempty : bodyText line = []
  · have hused : usedOn line = [] := by
      rw [usedOn, argumentsOn, mnemonicText, hempty]
      rfl
    refine ⟨none, by rw [hempty]; rfl, ?_, ?_, nofun⟩
    · rw [hused]
      rfl
    · rw [wordCount, if_pos hempty]
      rfl
  · obtain ⟨opcode, hopcode, hvalid, hcount⟩ := h.body.resolve_left hempty
    obtain ⟨arguments, hread, hlength, hnames⟩ := exists_readArguments hvalid
    have hfits : arguments.length = opcode.operandCount := hlength.trans hcount
    refine ⟨some (opcode, arguments), ?_, hnames, ?_, ?_⟩
    · rw [if_neg (by simpa using hempty)]
      dsimp only
      rw [← mnemonicText, hopcode]
      dsimp only
      rw [← argumentsOn, hread]
      exact if_pos hfits
    · rw [wordCount, if_neg hempty, ← hlength]
      rfl
    · rintro _ _ ⟨⟩
      exact hfits

/-- The body of a line cannot be read otherwise. -/
theorem body_of_readInstruction {line : List Char} {instruction : Option (Opcode × List Argument)}
    (h : readInstruction (bodyText line) = .ok instruction) :
    bodyText line = [] ∨
      ∃ opcode, Opcode.ofMnemonic? (mnemonicText line) = some opcode ∧
        (∀ text ∈ argumentsOn line, (readWord? text).isSome = true ∨ isLabelName text = true) ∧
        (argumentsOn line).length = opcode.operandCount := by
  by_cases hempty : bodyText line = []
  · exact .inl hempty
  unfold readInstruction at h
  rw [if_neg (by simpa using hempty)] at h
  dsimp only at h
  rw [← mnemonicText] at h
  cases hopcode : Opcode.ofMnemonic? (mnemonicText line) with
  | none =>
    rw [hopcode] at h
    cases h
  | some opcode =>
    rw [hopcode] at h
    obtain ⟨arguments, hread, hcounted⟩ := exists_of_bind_eq_ok h
    have hvalid : ∀ text ∈ argumentsOn line,
        (readWord? text).isSome = true ∨ isLabelName text = true := by
      intro text htext
      obtain ⟨argument, hargument⟩ := exists_of_mapM_eq_ok hread text htext
      exact isSome_of_readArgument hargument
    obtain ⟨others, hothers, hlength, -⟩ := exists_readArguments hvalid
    obtain rfl : others = arguments := Except.ok.inj (hothers.symm.trans hread)
    refine .inr ⟨opcode, rfl, hvalid, ?_⟩
    split at hcounted
    · rename_i hcount
      rw [← hlength, hcount]
    · cases hcounted

/-- An acceptable line is read into a statement that says what the line says. -/
theorem Acceptable.exists_readLine {line : List Char} (h : Acceptable line) :
    ∃ statement, readLine line = .ok statement ∧ Says line statement := by
  have hheads : ∀ head ∈ (pieces line).dropLast,
      readLabel head = .ok ([trim head].filter isLabelName) := fun head hhead =>
    readLabel_eq_ok (h.heads (trim head) (List.mem_map_of_mem hhead))
  obtain ⟨instruction, hread, hnames, hwords, hcounted⟩ :=
    exists_readInstruction h (definedOn line)
  refine ⟨⟨definedOn line, instruction⟩, ?_, rfl, hnames, hwords, hcounted⟩
  have hlabels : definedOn line =
      ((pieces line).dropLast.map fun head => [trim head].filter isLabelName).flatten :=
    (flatten_map_filter _).symm
  unfold readLine
  dsimp only
  rw [← pieces, mapM_eq_ok_map hheads, ← bodyText, hread, hlabels]
  rfl

/-- A line that can be read is acceptable. -/
theorem acceptable_of_readLine {line : List Char} {statement : Statement}
    (h : readLine line = .ok statement) : Acceptable line := by
  unfold readLine at h
  obtain ⟨labels, hlabels, h⟩ := exists_of_bind_eq_ok h
  obtain ⟨instruction, hinstruction, -⟩ := exists_of_bind_eq_ok h
  constructor
  · intro text htext
    obtain ⟨head, hhead, rfl⟩ := List.mem_map.mp htext
    obtain ⟨found, hfound⟩ := exists_of_mapM_eq_ok hlabels head hhead
    exact isLabelName_of_readLabel hfound
  · exact body_of_readInstruction hinstruction

/-- A line that is not acceptable cannot be read. -/
theorem exists_error_of_not_acceptable {line : List Char} (h : ¬ Acceptable line) :
    ∃ cause, readLine line = .error cause := by
  cases hread : readLine line with
  | ok statement => exact absurd (acceptable_of_readLine hread) h
  | error cause => exact ⟨cause, rfl⟩

/-- The places of lines that follow others begin behind them. -/
theorem locateLines_append (number offset : Nat) (before after : List (List Char)) :
    locateLines number offset (before ++ after) =
      locateLines number offset before ++
        locateLines (number + before.length) (offset + byteSize before.flatten) after := by
  induction before generalizing number offset with
  | nil => rfl
  | cons line before ih =>
    have hnumber : number + 1 + before.length = number + (line :: before).length := by
      rw [List.length_cons]
      omega
    have hoffset : offset + byteSize line + byteSize before.flatten =
        offset + byteSize (line :: before).flatten := by
      rw [List.flatten_cons, byteSize_append, Nat.add_assoc]
    rw [List.cons_append, locateLines, locateLines, ih, hnumber, hoffset]
    rfl

/-- Lines that are all acceptable are read into the statements that say what they say,
wherever they stand. -/
theorem exists_mapM_read {lines : List (List Char)} (h : ∀ line ∈ lines, Acceptable line)
    (number offset : Nat) :
    ∃ statements, (locateLines number offset lines).mapM SourceLine.read = .ok statements ∧
      List.Forall₂ Says lines statements := by
  induction lines generalizing number offset with
  | nil => exact ⟨[], rfl, .nil⟩
  | cons line lines ih =>
    obtain ⟨statement, hstatement, hsays⟩ := (h line List.mem_cons_self).exists_readLine
    obtain ⟨statements, hread, hrest⟩ :=
      ih (fun other hother => h other (List.mem_cons_of_mem line hother)) (number + 1)
        (offset + byteSize line)
    refine ⟨statement :: statements, ?_, .cons hsays hrest⟩
    rw [locateLines, List.mapM_cons, SourceLine.read, hstatement, hread]
    rfl

/-- The first line that cannot be read is reported with its number and its bytes. -/
theorem readSource_eq_error {source : List Char} {before after : List (List Char)}
    {line : List Char} {cause : LineError} (hlines : splitLines source = before ++ line :: after)
    (hbefore : ∀ earlier ∈ before, Acceptable earlier) (hcause : readLine line = .error cause) :
    readSource source =
      .error (.line (before.length + 1)
        ⟨byteSize before.flatten, byteSize before.flatten + byteSize line⟩ cause) := by
  obtain ⟨statements, hread, -⟩ := exists_mapM_read hbefore 1 0
  unfold readSource sourceLines
  rw [hlines, locateLines_append, locateLines]
  apply mapM_eq_error (exists_of_mapM_eq_ok hread)
  rw [SourceLine.read, hcause, Nat.zero_add, Nat.add_comm 1]
  rfl

/-- A line of a text has no other lines. -/
theorem splitLines_of_mem {source line : List Char} (h : line ∈ splitLines source) :
    splitLines line = [line] := by
  induction source generalizing line with
  | nil => simp [splitLines] at h
  | cons c rest ih =>
    rw [splitLines] at h
    split at h
    · rename_i hend
      rcases List.mem_cons.mp h with rfl | h
      · rw [splitLines, if_pos hend]
        rfl
      · exact ih h
    · rename_i hc
      split at h
      · rw [List.mem_singleton.mp h, splitLines, if_neg hc]
        rfl
      · rename_i first others hrest
        rcases List.mem_cons.mp h with rfl | h
        · have hfirst : splitLines first = [first] := ih (by rw [hrest]; exact List.mem_cons_self)
          rw [splitLines, if_neg hc, hfirst]
        · exact ih (by rw [hrest]; exact List.mem_cons_of_mem first h)

end LanguageKit.Program
