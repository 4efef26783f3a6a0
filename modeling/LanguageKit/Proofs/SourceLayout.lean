import LanguageKit.Proofs.Spelling
import LanguageKit.Proofs.TwoPass

/-!
# Layouts of a program

The same statements can be laid out in many ways: with blanks around all parts, in
either case, with other spellings of the words, with address columns in front and
comments behind. A layout is a relation between statements and texts that does not
mention how a text is read. Every layout is read back into the statements it lays
out, so a program is assembled into its meaning in two passes, whatever its layout.
-/

namespace LanguageKit.Program

open Text Listing

/-- A text of blanks. -/
def Gap (text : List Char) : Prop := ∀ c ∈ text, isBlank c = true

/-- Arguments with commas between them and with blanks around, but not behind the
last. -/
inductive Listed : List Argument → List Char → Prop where
  /-- The last argument. -/
  | last {argument : Argument} {left text : List Char} (before : Gap left)
      (spelled : Spelled argument text) : Listed [argument] (left ++ text)
  /-- An argument in front of others. -/
  | cons {argument : Argument} {arguments : List Argument} {left text right more : List Char}
      (before : Gap left) (spelled : Spelled argument text) (behind : Gap right)
      (others : Listed arguments more) :
      Listed (argument :: arguments) (left ++ (text ++ right) ++ ',' :: more)

/-- What stands behind a mnemonic: nothing, or a blank and arguments. -/
inductive Operands : List Argument → List Char → Prop where
  /-- No argument. -/
  | empty : Operands [] []
  /-- Arguments behind a blank. -/
  | behind {arguments : List Argument} {c : Char} {text : List Char} (blank : isBlank c = true)
      (listed : Listed arguments text) : Operands arguments (c :: text)

/-- What stands at the end of a line: blanks and perhaps a comment. -/
inductive Trailer : List Char → Prop where
  /-- Blanks only. -/
  | blank {gap : List Char} (blank : Gap gap) : Trailer gap
  /-- Blanks and a comment. -/
  | comment {gap : List Char} (blank : Gap gap) (text : List Char) : Trailer (gap ++ ';' :: text)

/-- A text lays a statement out as a line. -/
inductive LineLayout : Statement → List Char → Prop where
  /-- A line that says nothing. -/
  | blank {trailer : List Char} (behind : Trailer trailer) : LineLayout ⟨[], none⟩ trailer
  /-- An instruction with the arguments its opcode asks for. -/
  | instruction {opcode : Opcode} {arguments : List Argument}
      {left mnemonic operands trailer : List Char} (before : Gap left)
      (named : mnemonic.map Char.toLower = opcode.name.toList)
      (listed : Operands arguments operands) (count : arguments.length = opcode.operandCount)
      (behind : Trailer trailer) :
      LineLayout ⟨[], some (opcode, arguments)⟩ (left ++ (mnemonic ++ operands ++ trailer))
  /-- An address column in front of the rest of a line. -/
  | column {statement : Statement} {left digits right text : List Char} (before : Gap left)
      (nonempty : digits ≠ []) (decimal : ∀ c ∈ digits, c.isDigit = true) (behind : Gap right)
      (rest : LineLayout statement text) :
      LineLayout statement (left ++ (digits ++ right) ++ ':' :: text)
  /-- The definition of a label in front of the rest of a line. -/
  | label {statement : Statement} {name : Name} {left right text : List Char} (before : Gap left)
      (valid : IsName name) (behind : Gap right) (rest : LineLayout statement text) :
      LineLayout ⟨name :: statement.labels, statement.instruction⟩
        (left ++ (name ++ right) ++ ':' :: text)

/-- A text lays statements out, each on a line of its own. The last line may do
without its end. -/
inductive Layout : List Statement → List Char → Prop where
  /-- No line. -/
  | nil : Layout [] []
  /-- The last line, without its end. -/
  | last {statement : Statement} {line : List Char} (laid : LineLayout statement line)
      (single : '\n' ∉ line) : Layout [statement] line
  /-- A line in front of others. -/
  | cons {statement : Statement} {statements : List Statement} {line text : List Char}
      (laid : LineLayout statement line) (single : '\n' ∉ line) (rest : Layout statements text) :
      Layout (statement :: statements) (line ++ '\n' :: text)

/-- A blank separates nothing but words. -/
theorem Gap.ne_of_mem {text : List Char} (h : Gap text) {c : Char} (hc : c ∈ text) :
    c ≠ ',' ∧ c ≠ ':' ∧ c ≠ ';' := by
  have hblank := h c hc
  refine ⟨?_, ?_, ?_⟩ <;> rintro rfl <;> exact absurd hblank (by decide)

/-- A solid character separates nothing. -/
theorem ne_of_isSolid {c : Char} (h : isSolid c = true) : c ≠ ',' ∧ c ≠ ':' ∧ c ≠ ';' := by
  refine ⟨?_, ?_, ?_⟩ <;> rintro rfl <;> exact absurd h (by decide)

/-- Blanks behind blanks. -/
theorem Gap.append {first second : List Char} (hfirst : Gap first) (hsecond : Gap second) :
    Gap (first ++ second) :=
  List.forall_mem_append.mpr ⟨hfirst, hsecond⟩

/-- The end of a line may stand behind a line. -/
theorem Trailer.newline {text : List Char} (h : Trailer text) : Trailer (text ++ ['\n']) := by
  have hend : Gap ['\n'] := by
    intro c hc
    obtain rfl := List.mem_singleton.mp hc
    decide
  cases h with
  | blank blank => exact .blank (blank.append hend)
  | comment blank text =>
    rw [List.append_assoc, List.cons_append]
    exact .comment blank _

/-- The end of a line may stand behind a line. -/
theorem LineLayout.newline {statement : Statement} {text : List Char}
    (h : LineLayout statement text) : LineLayout statement (text ++ ['\n']) := by
  induction h with
  | blank behind => exact .blank behind.newline
  | instruction before named listed count behind =>
    rw [List.append_assoc, List.append_assoc]
    exact .instruction before named listed count behind.newline
  | column before nonempty decimal behind rest ih =>
    rw [List.append_assoc, List.cons_append]
    exact .column before nonempty decimal behind ih
  | label before valid behind rest ih =>
    rw [List.append_assoc, List.cons_append]
    exact .label before valid behind ih

/-- A part in front of a colon defines what its text says. -/
theorem readLine_append_colon {head rest : List Char} {labels : List Name} {statement : Statement}
    (hhead : ∀ c ∈ head, c ≠ ':' ∧ c ≠ ';') (hlabel : readLabel head = .ok labels)
    (hrest : readLine rest = .ok statement) :
    readLine (head ++ ':' :: rest) =
      .ok ⟨labels ++ statement.labels, statement.instruction⟩ := by
  have hcode : (head ++ ':' :: rest).takeWhile (fun c => decide (c ≠ ';')) =
      head ++ ':' :: rest.takeWhile (fun c => decide (c ≠ ';')) := by
    rw [List.takeWhile_append_of_pos fun c hc => decide_eq_true (hhead c hc).2]
    rfl
  have hcolon : ':' ∉ head := fun hmem => (hhead ':' hmem).1 rfl
  unfold readLine at hrest ⊢
  dsimp only at hrest ⊢
  rw [hcode, parts_append_cons hcolon]
  generalize rest.takeWhile (fun c => decide (c ≠ ';')) = code at hrest ⊢
  obtain ⟨found, hfound, hrest⟩ := exists_of_bind_eq_ok hrest
  obtain ⟨instruction, hinstruction, hrest⟩ := exists_of_bind_eq_ok hrest
  obtain rfl : (⟨found.flatten, instruction⟩ : Statement) = statement := Except.ok.inj hrest
  have hne : parts ':' code ≠ [] := by simp [parts]
  have hlast : (head :: parts ':' code).getLastD [] = (parts ':' code).getLastD [] := by
    rw [List.getLastD_cons, List.getLastD_eq_getLast?, List.getLastD_eq_getLast?,
      List.getLast?_eq_some_getLast hne]
    rfl
  rw [List.dropLast_cons_of_ne_nil hne, List.mapM_cons, hlabel, hfound, hlast, hinstruction]
  rfl

/-- An address column defines nothing. -/
theorem readLabel_column {left digits right : List Char} (before : Gap left)
    (nonempty : digits ≠ []) (decimal : ∀ c ∈ digits, c.isDigit = true) (behind : Gap right) :
    readLabel (left ++ (digits ++ right)) = .ok [] := by
  have htight : Tight digits :=
    tight_of_forall fun c hc => isBlank_of_isSolid (isSolid_of_isDigit (decimal c hc))
  have haddress : isAddressColumn digits = true := by
    simpa [isAddressColumn, nonempty] using decimal
  unfold readLabel
  dsimp only
  rw [trim_append left right before behind htight, if_pos haddress]

/-- A name defines itself. -/
theorem readLabel_name {left right : List Char} {name : Name} (before : Gap left)
    (valid : IsName name) (behind : Gap right) :
    readLabel (left ++ (name ++ right)) = .ok [name] := by
  have htight : Tight name :=
    tight_of_forall fun c hc => isBlank_of_isSolid ((Spelled.name valid).solid.2 c hc)
  have haddress : isAddressColumn name = false := by
    obtain ⟨c, rest, rfl, hfirst, -⟩ := valid
    have hletter : c.isDigit = false := hfirst.isDigit_eq_false
    simp [isAddressColumn, hletter]
  unfold readLabel
  dsimp only
  rw [trim_append left right before behind htight, haddress, isLabelName_iff.mpr valid]
  rfl

/-- A line without a colon in front of its comment is an instruction. -/
theorem readLine_trailer {left body trailer : List Char} (before : Gap left) (htight : Tight body)
    (hbody : ∀ c ∈ body, c ≠ ':' ∧ c ≠ ';') (behind : Trailer trailer) :
    readLine (left ++ (body ++ trailer)) =
      (readInstruction body).map fun instruction => ⟨[], instruction⟩ := by
  -- the comment is cut off, and blanks stay
  obtain ⟨gap, hgap, hcode⟩ : ∃ gap, Gap gap ∧
      (left ++ (body ++ trailer)).takeWhile (fun c => decide (c ≠ ';')) =
        left ++ (body ++ gap) := by
    have hfront : ∀ c ∈ left ++ body, decide (c ≠ ';') = true := by
      intro c hc
      rcases List.mem_append.mp hc with hc | hc
      · exact decide_eq_true (before.ne_of_mem hc).2.2
      · exact decide_eq_true (hbody c hc).2
    have hmarks {gap : List Char} (hgap : Gap gap) : ∀ c ∈ gap, decide (c ≠ ';') = true :=
      fun c hc => decide_eq_true (hgap.ne_of_mem hc).2.2
    rw [← List.append_assoc, List.takeWhile_append_of_pos hfront]
    cases behind with
    | blank hgap =>
      refine ⟨trailer, hgap, ?_⟩
      rw [List.takeWhile_eq_self_iff.mpr (hmarks hgap), List.append_assoc]
    | @comment gap hgap text =>
      refine ⟨gap, hgap, ?_⟩
      rw [List.takeWhile_append_of_pos (hmarks hgap)]
      simp
  have hcolon : ':' ∉ left ++ (body ++ gap) := by
    intro hmem
    rcases List.mem_append.mp hmem with hmem | hmem
    · exact (before.ne_of_mem hmem).2.1 rfl
    · rcases List.mem_append.mp hmem with hmem | hmem
      · exact (hbody ':' hmem).1 rfl
      · exact (hgap.ne_of_mem hmem).2.1 rfl
  unfold readLine
  dsimp only
  rw [hcode, parts_of_not_mem hcolon]
  change (readInstruction (trim (left ++ (body ++ gap))) >>= fun instruction =>
    pure (⟨[], instruction⟩ : Statement)) = _
  rw [trim_append left gap before hgap htight]
  cases readInstruction body <;> rfl

/-- A text in front of a comma is the first argument. -/
theorem argumentTexts_append_comma {left text right : List Char} (before : Gap left)
    (hne : text ≠ []) (hsolid : ∀ c ∈ text, isSolid c = true) (behind : Gap right)
    (more : List Char) :
    argumentTexts (left ++ (text ++ right) ++ ',' :: more) = text :: argumentTexts more := by
  have htight : Tight text := tight_of_forall fun c hc => isBlank_of_isSolid (hsolid c hc)
  have hcomma : ',' ∉ left ++ (text ++ right) := by
    intro hmem
    rcases List.mem_append.mp hmem with hmem | hmem
    · exact (before.ne_of_mem hmem).1 rfl
    · rcases List.mem_append.mp hmem with hmem | hmem
      · exact (ne_of_isSolid (hsolid ',' hmem)).1 rfl
      · exact (behind.ne_of_mem hmem).1 rfl
  unfold argumentTexts
  rw [parts_append_cons hcomma, List.map_cons, trim_append left right before behind htight,
    List.filter_cons_of_pos (by simpa using hne)]

/-- A text without a comma is the only argument. -/
theorem argumentTexts_single {left text : List Char} (before : Gap left)
    (hne : text ≠ []) (hsolid : ∀ c ∈ text, isSolid c = true) :
    argumentTexts (left ++ text) = [text] := by
  have htight : Tight text := tight_of_forall fun c hc => isBlank_of_isSolid (hsolid c hc)
  have hcomma : ',' ∉ left ++ text := by
    intro hmem
    rcases List.mem_append.mp hmem with hmem | hmem
    · exact (before.ne_of_mem hmem).1 rfl
    · exact (ne_of_isSolid (hsolid ',' hmem)).1 rfl
  unfold argumentTexts
  rw [parts_of_not_mem hcomma, List.map_singleton, trim_append_left before htight]
  simpa using hne

/-- Arguments are read from their texts between the commas. -/
theorem Listed.mapM_readArgument {arguments : List Argument} {text : List Char}
    (h : Listed arguments text) : (argumentTexts text).mapM readArgument = .ok arguments := by
  induction h with
  | last before spelled =>
    obtain ⟨hne, hsolid⟩ := spelled.solid
    rw [argumentTexts_single before hne hsolid, List.mapM_cons, spelled.readArgument]
    rfl
  | cons before spelled behind others ih =>
    obtain ⟨hne, hsolid⟩ := spelled.solid
    rw [argumentTexts_append_comma before hne hsolid behind, List.mapM_cons,
      spelled.readArgument, ih]
    rfl

/-- Between and inside arguments there is no colon and no semicolon. -/
theorem Listed.ne_of_mem {arguments : List Argument} {text : List Char} (h : Listed arguments text)
    {c : Char} (hc : c ∈ text) : c ≠ ':' ∧ c ≠ ';' := by
  induction h with
  | last before spelled =>
    rcases List.mem_append.mp hc with hc | hc
    · exact (before.ne_of_mem hc).2
    · exact (ne_of_isSolid (spelled.solid.2 c hc)).2
  | cons before spelled behind others ih =>
    simp only [List.mem_append, List.mem_cons] at hc
    rcases hc with (hc | hc | hc) | rfl | hc
    · exact (before.ne_of_mem hc).2
    · exact (ne_of_isSolid (spelled.solid.2 c hc)).2
    · exact (behind.ne_of_mem hc).2
    · decide
    · exact ih hc

/-- The last argument ends its text. -/
theorem Listed.exists_last {arguments : List Argument} {text : List Char}
    (h : Listed arguments text) :
    ∃ front last, text = front ++ last ∧ last ≠ [] ∧ ∀ c ∈ last, isSolid c = true := by
  induction h with
  | last before spelled => exact ⟨_, _, rfl, spelled.solid⟩
  | @cons argument arguments left text right more before spelled behind others ih =>
    obtain ⟨front, last, rfl, hlast⟩ := ih
    exact ⟨left ++ (text ++ right) ++ ',' :: front, last, by simp, hlast⟩

/-- Behind a mnemonic comes a blank or nothing. -/
theorem Operands.isBlank_head {arguments : List Argument} {text : List Char}
    (h : Operands arguments text) : ∀ c, text.head? = some c → isBlank c = true := by
  intro c hc
  cases h with
  | empty => cases hc
  | behind blank => exact Option.some.inj hc ▸ blank

/-- Behind the blank the arguments are read. -/
theorem Operands.mapM_readArgument {arguments : List Argument} {text : List Char}
    (h : Operands arguments text) :
    (argumentTexts (text.drop 1)).mapM readArgument = .ok arguments := by
  cases h with
  | empty => rfl
  | behind blank listed => exact listed.mapM_readArgument

/-- Behind a mnemonic there is no colon and no semicolon. -/
theorem Operands.ne_of_mem {arguments : List Argument} {text : List Char}
    (h : Operands arguments text) {c : Char} (hc : c ∈ text) : c ≠ ':' ∧ c ≠ ';' := by
  cases h with
  | empty => cases hc
  | @behind _ first _ blank listed =>
    rcases List.mem_cons.mp hc with rfl | hc
    · have hgap : Gap [c] := by simpa [Gap] using blank
      exact (hgap.ne_of_mem List.mem_cons_self).2
    · exact listed.ne_of_mem hc

/-- A mnemonic is made of letters, in either case. -/
theorem isSolid_of_mem_mnemonic {opcode : Opcode} {mnemonic : List Char}
    (named : mnemonic.map Char.toLower = opcode.name.toList) :
    ∀ c ∈ mnemonic, isSolid c = true := by
  have hletters : ∀ c ∈ opcode.name.toList, c.isLower = true := by
    cases opcode <;> exact List.all_eq_true.mp rfl
  intro c hc
  have hlower : c.toLower ∈ opcode.name.toList := by
    rw [← named]
    exact List.mem_map_of_mem hc
  have hrange : 97 ≤ c.toLower.toNat ∧ c.toLower.toNat ≤ 122 :=
    isLower_iff_range.mp (hletters c.toLower hlower)
  rw [toNat_toLower] at hrange
  apply isSolid_of_toNat
  split at hrange <;> omega

/-- A mnemonic names its opcode, in either case. -/
theorem ofMnemonic?_mnemonic {opcode : Opcode} {mnemonic : List Char}
    (named : mnemonic.map Char.toLower = opcode.name.toList) :
    Opcode.ofMnemonic? mnemonic = some opcode := by
  rw [Opcode.ofMnemonic?, named]
  cases opcode <;> decide

/-- A mnemonic is not empty. -/
theorem mnemonic_ne_nil {opcode : Opcode} {mnemonic : List Char}
    (named : mnemonic.map Char.toLower = opcode.name.toList) : mnemonic ≠ [] := by
  rintro rfl
  exact name_ne_nil opcode named.symm

/-- A mnemonic and what stands behind it have no blanks around. -/
theorem tight_mnemonic_append {opcode : Opcode} {arguments : List Argument}
    {mnemonic operands : List Char} (named : mnemonic.map Char.toLower = opcode.name.toList)
    (listed : Operands arguments operands) : Tight (mnemonic ++ operands) := by
  have hmnemonic : Tight mnemonic :=
    tight_of_forall fun c hc => isBlank_of_isSolid (isSolid_of_mem_mnemonic named c hc)
  cases listed with
  | empty => rwa [List.append_nil]
  | @behind _ first _ blank listed =>
    obtain ⟨front, last, rfl, hne, hsolid⟩ := listed.exists_last
    have hlast : Tight last := tight_of_forall fun c hc => isBlank_of_isSolid (hsolid c hc)
    exact tight_append hmnemonic hlast (mnemonic_ne_nil named) hne (first :: front)

/-- A mnemonic with arguments behind it is an instruction. -/
theorem readInstruction_mnemonic {opcode : Opcode} {arguments : List Argument}
    {mnemonic operands : List Char} (named : mnemonic.map Char.toLower = opcode.name.toList)
    (listed : Operands arguments operands) (count : arguments.length = opcode.operandCount) :
    readInstruction (mnemonic ++ operands) = .ok (some (opcode, arguments)) := by
  have hmnemonic := takeWhile_mnemonic mnemonic operands (isSolid_of_mem_mnemonic named)
    listed.isBlank_head
  have hdrop : (mnemonic ++ operands).drop (mnemonic.length + 1) = operands.drop 1 := by
    rw [List.drop_append]
    simp
  have hne : mnemonic ++ operands ≠ [] := fun h =>
    mnemonic_ne_nil named (List.append_eq_nil_iff.mp h).1
  unfold readInstruction
  rw [if_neg (by rwa [List.isEmpty_iff])]
  dsimp only
  rw [hmnemonic, ofMnemonic?_mnemonic named, hdrop]
  dsimp only
  rw [listed.mapM_readArgument]
  exact if_pos count

/-- Every layout of a line is read as its statement. -/
theorem LineLayout.readLine {statement : Statement} {text : List Char}
    (h : LineLayout statement text) : Program.readLine text = .ok statement := by
  have hmark {left part right : List Char} (before : Gap left)
      (hsolid : ∀ c ∈ part, isSolid c = true) (behind : Gap right) :
      ∀ c ∈ left ++ (part ++ right), c ≠ ':' ∧ c ≠ ';' := by
    intro c hc
    rcases List.mem_append.mp hc with hc | hc
    · exact (before.ne_of_mem hc).2
    · rcases List.mem_append.mp hc with hc | hc
      · exact (ne_of_isSolid (hsolid c hc)).2
      · exact (behind.ne_of_mem hc).2
  induction h with
  | blank behind =>
    have hempty : Tight [] := tight_of_forall (by simp)
    exact readLine_trailer (by simp [Gap] : Gap []) hempty (by simp) behind
  | @instruction opcode arguments left mnemonic operands trailer before named listed count behind =>
    have hbody : ∀ c ∈ mnemonic ++ operands, c ≠ ':' ∧ c ≠ ';' := by
      intro c hc
      rcases List.mem_append.mp hc with hc | hc
      · exact (ne_of_isSolid (isSolid_of_mem_mnemonic named c hc)).2
      · exact listed.ne_of_mem hc
    rw [readLine_trailer before (tight_mnemonic_append named listed) hbody behind,
      readInstruction_mnemonic named listed count]
    rfl
  | column before nonempty decimal behind rest ih =>
    have hsolid := hmark before (fun c hc => isSolid_of_isDigit (decimal c hc)) behind
    rw [readLine_append_colon hsolid (readLabel_column before nonempty decimal behind) ih]
    rfl
  | label before valid behind rest ih =>
    have hsolid := hmark before (Spelled.name valid).solid.2 behind
    rw [readLine_append_colon hsolid (readLabel_name before valid behind) ih]
    rfl

/-- A text without the end of a line is a single line. -/
theorem splitLines_of_not_mem {line : List Char} (hne : line ≠ []) (h : '\n' ∉ line) :
    splitLines line = [line] := by
  induction line with
  | nil => contradiction
  | cons c rest ih =>
    have hc : c ≠ '\n' := fun heq => h (heq ▸ List.mem_cons_self)
    rw [splitLines, if_neg hc]
    by_cases hrest : rest = []
    · rw [hrest]
      rfl
    · rw [ih hrest fun hmem => h (List.mem_cons_of_mem c hmem)]

/-- Every layout is read into its statements. A last line that is empty says nothing
and is not read at all. -/
theorem Layout.mapM_read {statements : List Statement} {text : List Char}
    (h : Layout statements text) (number offset : Nat) :
    ∃ found, (locateLines number offset (splitLines text)).mapM SourceLine.read = .ok found ∧
      ∀ draft, found.foldl Draft.addStatement draft =
        statements.foldl Draft.addStatement draft := by
  induction h generalizing number offset with
  | nil => exact ⟨[], rfl, fun draft => rfl⟩
  | @last statement line laid single =>
    by_cases hline : line = []
    · subst hline
      have hblank : statement = ⟨[], none⟩ := by
        have hread := laid.readLine
        exact (Except.ok.inj hread).symm
      exact ⟨[], rfl, fun draft => by rw [hblank]; rfl⟩
    · refine ⟨[statement], ?_, fun draft => rfl⟩
      rw [splitLines_of_not_mem hline single, locateLines, locateLines, List.mapM_cons,
        SourceLine.read, laid.readLine]
      rfl
  | @cons statement statements line text laid single rest ih =>
    rw [splitLines_append_cons single, locateLines]
    obtain ⟨found, hfound, hsame⟩ :=
      ih (number + 1) (offset + byteSize (line ++ ['\n']))
    refine ⟨statement :: found, ?_, fun draft => hsame (draft.addStatement statement)⟩
    rw [List.mapM_cons, SourceLine.read, laid.newline.readLine, hfound]
    rfl

/-- A program that is laid out has the arguments its opcodes ask for. -/
theorem Layout.counted {statements : List Statement} {text : List Char}
    (h : Layout statements text) : Counted statements := by
  have hline {statement : Statement} {line : List Char} (laid : LineLayout statement line) :
      ∀ opcode arguments, statement.instruction = some (opcode, arguments) →
        arguments.length = opcode.operandCount := by
    induction laid with
    | blank => nofun
    | instruction before named listed count behind =>
      rintro opcode arguments ⟨⟩
      exact count
    | column before nonempty decimal behind rest ih => exact ih
    | label before valid behind rest ih => exact ih
  induction h with
  | nil => simp [Counted]
  | last laid =>
    intro statement hstatement
    obtain rfl := List.mem_singleton.mp hstatement
    exact hline laid
  | cons laid single rest ih =>
    intro statement hstatement
    rcases List.mem_cons.mp hstatement with rfl | hstatement
    · exact hline laid
    · exact ih statement hstatement

/-- What comes out of a text depends on its statements alone. -/
theorem Layout.assemble_eq {statements : List Statement} {source : String}
    (h : Layout statements source.toList) : assemble source = ofStatements statements := by
  obtain ⟨found, hfound, hsame⟩ := h.mapM_read 1 0
  have hread : readSource source.toList = .ok found := hfound
  unfold assemble
  rw [hread]
  change ofStatements found = ofStatements statements
  unfold ofStatements
  rw [hsame]

/-- A program is assembled into its meaning in two passes, however it is laid out: when
its labels are in order, the result is its words, with the number of words in front of
its definition for every name, whether the name is used before or behind it; when a
name is used without being defined, or is defined twice, the program is reported. Other
layouts of the same statements bring the same result. -/
theorem assemble_layout {statements : List Statement} {source : String}
    (h : Layout statements source.toList) :
    (WellLabelled statements → assemble source = .ok (code statements).toArray) ∧
      ((∃ name ∈ references statements, name ∉ (definitions 0 statements).map Prod.fst) ∨
          ¬ ((definitions 0 statements).map Prod.fst).Nodup →
        ∃ error, assemble source = .error error) ∧
      ∀ other : String, Layout statements other.toList → assemble other = assemble source := by
  rw [h.assemble_eq]
  exact ⟨ofStatements_of_wellLabelled h.counted, ofStatements_of_mislabelled h.counted,
    fun other hother => hother.assemble_eq⟩

/-- Two statements, each of which uses the name that the other defines. -/
def crossing : List Statement :=
  [⟨[['a']], some (.j, [.name ['b']])⟩, ⟨[['b']], some (.jeq, [.word 31, .name ['a']])⟩]

/-- A layout of the two statements, with a column, a comment and a hexadecimal word. -/
theorem layout_crossing : Layout crossing "a: 0: J b ;\nb:jeq 0x1F , a".toList := by
  have hnone : Gap [] := by simp [Gap]
  have hblank : Gap [' '] := List.all_eq_true.mp rfl
  have ha : IsName ['a'] := isLabelName_iff.mp rfl
  have hb : IsName ['b'] := isLabelName_iff.mp rfl
  have hj : ['J'].map Char.toLower = Opcode.j.name.toList := by decide
  have hjeq : ['j', 'e', 'q'].map Char.toLower = Opcode.jeq.name.toList := by decide
  have hfirst : LineLayout ⟨[['a']], some (.j, [.name ['b']])⟩ "a: 0: J b ;".toList :=
    have hjump : LineLayout ⟨[], some (.j, [.name ['b']])⟩ " J b ;".toList :=
      .instruction hblank hj
        (.behind (by decide : isBlank ' ' = true) (.last hnone (.name hb))) rfl (.comment hblank [])
    .label hnone ha hnone
      (.column hblank (List.cons_ne_nil '0' []) (List.all_eq_true.mp rfl) hnone hjump)
  have hword : Spelled (.word 31) ['0', 'x', '1', 'F'] :=
    .word (.plain (.hexadecimal (Or.inl rfl)
      (.snoc (.single ⟨by decide, rfl⟩ : Numeral 16 1 ['1'])
        (⟨by decide, rfl⟩ : DigitOf 16 15 'F')))) (by decide) (by decide)
  have hsecond : LineLayout ⟨[['b']], some (.jeq, [.word 31, .name ['a']])⟩
      "b:jeq 0x1F , a".toList :=
    .label hnone hb hnone
      (.instruction hnone hjeq
        (.behind (by decide : isBlank ' ' = true)
          (.cons hnone hword hblank (.last hblank (.name ha)))) rfl (.blank hnone))
  exact .cons hfirst (by decide) (.last hsecond (by decide))

/-- The name that is used before its definition becomes its address, and so does the
one that is used behind it. -/
theorem assemble_crossing :
    assemble "a: 0: J b ;\nb:jeq 0x1F , a" = .ok #[11, 2, 9, 31, 0] := by
  have hlabels : WellLabelled crossing :=
    { defined := by decide
      unique := by decide
      fits := by decide }
  exact (assemble_layout layout_crossing).1 hlabels

end LanguageKit.Program
