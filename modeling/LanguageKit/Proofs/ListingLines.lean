import LanguageKit.Program.Listing

/-!
# The lines of a listing

The lines of a listing stand one behind the other: each has the address at which its words
begin, its words are those of the program from there on, and the next line begins behind
them. A line lacks operands only where the program ends.
-/

namespace LanguageKit.Listing

/-- A line with what it must have in front of the rest of a program: a word without
operands that encodes no opcode, or an opcode with all its operands, some of which may be
missing if nothing follows. -/
def Line.Decodes (line : Line) (rest : List Int32) : Prop :=
  match line.head with
  | .data word => Opcode.ofWord? word = none ∧ line.operands = []
  | .opcode opcode =>
    line.operands.length = opcode.operandCount ∨
      line.operands.length < opcode.operandCount ∧ rest = []

/-- The address at which lines start, or the given one if there are none. -/
def startOf (lines : List Line) (ending : Nat) : Nat :=
  (lines.head?.map Line.address).getD ending

/-- An address at which a line of the program starts, or the program ends. -/
def StartsLine (program : List Int32) (address : Nat) : Prop :=
  address = program.length ∨ ∃ line ∈ ofProgram program, line.address = address

/-- The first line takes its words from the front, and the others start behind them. -/
theorem linesFrom_eq_cons {address : Nat} {words : List Int32} {line : Line} {after : List Line}
    (h : linesFrom address words = line :: after) :
    ∃ rest, words = line.words ++ rest ∧ line.address = address ∧
      after = linesFrom (address + line.words.length) rest ∧ line.Decodes rest := by
  cases words with
  | nil =>
    rw [linesFrom] at h
    cases h
  | cons first rest =>
    rw [linesFrom] at h
    cases hword : Opcode.ofWord? first with
    | none =>
      rw [hword] at h
      obtain ⟨rfl, rfl⟩ := List.cons.inj h
      exact ⟨rest, rfl, rfl, rfl, hword, rfl⟩
    | some opcode =>
      rw [hword] at h
      obtain ⟨rfl, rfl⟩ := List.cons.inj h
      have hfirst : opcode.word = first := Opcode.word_of_ofWord? hword
      refine ⟨rest.drop opcode.operandCount, ?_, rfl, ?_, ?_⟩
      · rw [Line.words, Head.word, hfirst, List.cons_append, List.take_append_drop]
      · rw [Line.words, List.length_cons, Nat.add_assoc, Nat.add_comm 1]
      · change (rest.take opcode.operandCount).length = opcode.operandCount ∨
          (rest.take opcode.operandCount).length < opcode.operandCount ∧
            rest.drop opcode.operandCount = []
        rw [List.length_take, List.drop_eq_nil_iff]
        omega

/-- Lines behind other lines are those of the words behind theirs. -/
theorem linesFrom_eq_append {address : Nat} {words : List Int32} {before after : List Line}
    (h : linesFrom address words = before ++ after) :
    ∃ front back, words = front ++ back ∧ after = linesFrom (address + front.length) back := by
  induction before generalizing address words with
  | nil => exact ⟨[], words, rfl, h.symm⟩
  | cons line before ih =>
    obtain ⟨rest, hwords, -, hbehind, -⟩ := linesFrom_eq_cons h
    obtain ⟨front, back, hrest, hafter⟩ := ih hbehind.symm
    refine ⟨line.words ++ front, back, ?_, ?_⟩
    · rw [hwords, hrest, List.append_assoc]
    · rw [hafter, List.length_append, Nat.add_assoc]

/-- A line of a listing has the address at which its words begin, and the lines behind it
start where its words end. -/
theorem ofProgram_eq_append {program : List Int32} {before after : List Line} {line : Line}
    (h : ofProgram program = before ++ line :: after) :
    ∃ front rest, program = front ++ (line.words ++ rest) ∧ line.address = front.length ∧
      after = linesFrom (line.address + line.words.length) rest ∧ line.Decodes rest := by
  obtain ⟨front, back, hprogram, htail⟩ := linesFrom_eq_append h
  obtain ⟨rest, hback, haddress, hafter, hdecodes⟩ := linesFrom_eq_cons htail.symm
  rw [Nat.zero_add] at haddress hafter
  exact ⟨front, rest, by rw [hprogram, hback], haddress, by rw [hafter, haddress], hdecodes⟩

/-- The lines of words start at the address of the words. -/
theorem startOf_linesFrom (address : Nat) (words : List Int32) :
    startOf (linesFrom address words) (address + words.length) = address := by
  cases hlines : linesFrom address words with
  | nil =>
    have hwords : words = [] := by
      rw [← words_linesFrom address words, hlines]
      rfl
    rw [hwords]
    rfl
  | cons line after =>
    obtain ⟨-, -, haddress, -, -⟩ := linesFrom_eq_cons hlines
    exact haddress

/-- The lines behind a line start where its words end. -/
theorem startOf_after {program : List Int32} {before after : List Line} {line : Line}
    (h : ofProgram program = before ++ line :: after) :
    startOf after program.length = line.address + line.words.length := by
  obtain ⟨front, rest, hprogram, haddress, hafter, -⟩ := ofProgram_eq_append h
  have hlength : program.length = line.address + line.words.length + rest.length := by
    rw [hprogram, haddress, List.length_append, List.length_append, Nat.add_assoc]
  rw [hafter, hlength, startOf_linesFrom]

/-- A program starts a line, or it ends there already. -/
theorem startsLine_zero (program : List Int32) : StartsLine program 0 := by
  cases hlines : ofProgram program with
  | nil =>
    have hempty : program = [] := by
      rw [← words_linesFrom 0 program]
      exact congrArg (List.flatMap Line.words) hlines
    exact .inl (by rw [hempty, List.length_nil])
  | cons line after =>
    obtain ⟨-, -, haddress, -, -⟩ := linesFrom_eq_cons hlines
    exact .inr ⟨line, by rw [hlines]; exact List.mem_cons_self, haddress⟩

/-- Behind a line another one starts, or the program ends. -/
theorem startsLine_after {program : List Int32} {before after : List Line} {line : Line}
    (h : ofProgram program = before ++ line :: after) :
    StartsLine program (line.address + line.words.length) := by
  rw [← startOf_after h]
  cases after with
  | nil => exact .inl rfl
  | cons next after =>
    have hmem : next ∈ ofProgram program := by
      rw [h]
      exact List.mem_append_right before (List.mem_cons_of_mem line List.mem_cons_self)
    exact .inr ⟨next, hmem, rfl⟩

end LanguageKit.Listing
