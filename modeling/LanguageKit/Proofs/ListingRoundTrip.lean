import Mathlib.Data.List.TakeWhile
import LanguageKit.Program.Listing
import LanguageKit.Proofs.Numerals
import LanguageKit.Proofs.Separation

/-!
# Listings assembled back

The listing of a program is itself the text of a program. Assembling it gives
the program back exactly when the program is well formed: a sequence of opcodes,
each with all its operands. A word that encodes no opcode, and an instruction
that lost operands to the end of the program, make a line that cannot be read.
-/

namespace LanguageKit

open Text Program

/-- Words that split into complete instructions: the word of an opcode, then as
many operands as the opcode asks for, whatever words these are. -/
inductive WellFormed : List Int32 → Prop where
  /-- No instruction at all. -/
  | nil : WellFormed []
  /-- A complete instruction in front of others. -/
  | cons (opcode : Opcode) (operands rest : List Int32)
      (count : operands.length = opcode.operandCount) (tail : WellFormed rest) :
      WellFormed (opcode.word :: (operands ++ rest))

namespace Listing

/-- A line that holds an opcode with all its operands. -/
def Line.Complete (line : Line) : Prop :=
  ∃ opcode, line.head = .opcode opcode ∧ line.operands.length = opcode.operandCount

/-- The lines of complete instructions are complete. -/
theorem complete_of_wellFormed {words : List Int32} (h : WellFormed words) (address : Nat) :
    ∀ line ∈ linesFrom address words, line.Complete := by
  induction h generalizing address with
  | nil => simp [linesFrom]
  | cons opcode operands rest count tail ih =>
    have htake : (operands ++ rest).take opcode.operandCount = operands := by
      rw [← count, List.take_left]
    have hdrop : (operands ++ rest).drop opcode.operandCount = rest := by
      rw [← count, List.drop_left]
    intro line hline
    rw [linesFrom, Opcode.ofWord?_word] at hline
    dsimp only at hline
    rw [htake, hdrop] at hline
    rcases List.mem_cons.mp hline with rfl | hline
    · exact ⟨opcode, rfl, count⟩
    · exact ih _ line hline

/-- Words whose lines are all complete are well formed. -/
theorem wellFormed_of_complete {address : Nat} {words : List Int32}
    (h : ∀ line ∈ linesFrom address words, line.Complete) : WellFormed words := by
  fun_induction linesFrom address words with
  | case1 => exact WellFormed.nil
  | case2 address first rest hword ih =>
    obtain ⟨opcode, hhead, -⟩ := h _ List.mem_cons_self
    contradiction
  | case3 address first rest opcode hword operands ih =>
    obtain ⟨found, hhead, hcount⟩ := h _ List.mem_cons_self
    cases hhead
    have htail := ih fun line hline => h line (List.mem_cons_of_mem _ hline)
    have hfirst : opcode.word = first := Opcode.word_of_ofWord? hword
    have hwords := WellFormed.cons opcode operands _ hcount htail
    rwa [List.take_append_drop, hfirst] at hwords

/-- A program is well formed exactly when every line of its listing is complete. -/
theorem wellFormed_iff (words : List Int32) :
    WellFormed words ↔ ∀ line ∈ ofProgram words, line.Complete :=
  ⟨fun h => complete_of_wellFormed h 0, wellFormed_of_complete⟩

/-- A character that is no blank and separates nothing in the text of a program. -/
def isSolid (c : Char) : Bool := !isBlank c && c != ',' && c != ':' && c != ';'

/-- A solid character is not blank. -/
theorem isBlank_of_isSolid {c : Char} (h : isSolid c = true) : isBlank c = false := by
  simp only [isSolid, Bool.and_eq_true, Bool.not_eq_true'] at h
  exact h.1.1.1

/-- Digits are solid. -/
theorem isSolid_of_isDigit {c : Char} (h : c.isDigit = true) : isSolid c = true := by
  obtain ⟨hlow, hhigh⟩ := Char.isDigit_iff_toNat.mp h
  simp only [Char.reduceToNat] at hlow hhigh
  have hblank : isBlank c = false := by
    simp only [isBlank, Bool.or_eq_false_iff, Bool.and_eq_false_iff, decide_eq_false_iff_not,
      beq_eq_false_iff_ne]
    omega
  have hne : c ≠ ',' ∧ c ≠ ':' ∧ c ≠ ';' := by
    refine ⟨?_, ?_, ?_⟩ <;> rintro rfl <;> exact absurd h (by decide)
  simp [isSolid, hblank, hne]

/-- The text of a word is solid. -/
theorem isSolid_of_mem_wordText {w : Int32} {c : Char} (h : c ∈ (wordText w).toList) :
    isSolid c = true := by
  rcases of_mem_wordText h with hdigit | rfl
  · exact isSolid_of_isDigit hdigit
  · decide

/-- Mnemonics are solid. -/
theorem isSolid_of_mem_name (opcode : Opcode) : ∀ c ∈ opcode.name.toList, isSolid c = true := by
  cases opcode <;> exact List.all_eq_true.mp rfl

/-- The texts of operands. -/
def operandTexts (operands : List Int32) : List (List Char) :=
  operands.map fun word => (wordText word).toList

/-- What a line says behind its name: nothing, or a blank and the operands. -/
def operandTail (operands : List Int32) : List Char :=
  if operands.isEmpty then [] else ' ' :: [',', ' '].intercalate (operandTexts operands)

/-- What a line says behind its address. -/
def Line.body (line : Line) : List Char := line.head.text.toList ++ operandTail line.operands

/-- A line is its address, a colon, a blank and its body. -/
theorem toList_text (line : Line) :
    line.text.toList = (addressText line.address).toList ++ ':' :: ' ' :: line.body := by
  unfold Line.text Line.body operandTail operandTexts
  split <;> simp [Function.comp_def]

/-- The text of a listing is made of its lines, each with its end. -/
theorem toList_listing (lines : List Line) :
    (text lines).toList = (lines.map fun line => line.text.toList).flatMap (· ++ ['\n']) := by
  simp [text, List.flatMap_map]

end Listing

namespace Program

open Listing

/-- The operand texts between commas and blanks are found again. -/
theorem argumentTexts_intercalate {texts : List (List Char)}
    (h : ∀ text ∈ texts, text ≠ [] ∧ ∀ c ∈ text, isSolid c = true) (left : List Char)
    (hleft : ∀ c ∈ left, isBlank c = true) :
    argumentTexts (left ++ [',', ' '].intercalate texts) = texts := by
  have hcomma : ',' ∉ left := fun hmem => absurd (hleft ',' hmem) (by decide)
  induction texts generalizing left with
  | nil =>
    have htrim := trim_append_left hleft (tight_of_forall (by simp : ∀ c ∈ [], isBlank c = false))
    unfold argumentTexts
    rw [List.intercalate_nil, List.append_nil, parts_of_not_mem hcomma]
    rw [List.append_nil] at htrim
    simp [htrim]
  | cons text texts ih =>
    obtain ⟨hne, hsolid⟩ := h text List.mem_cons_self
    have hrest := fun other hother => h other (List.mem_cons_of_mem text hother)
    have htight : Tight text := tight_of_forall fun c hc => isBlank_of_isSolid (hsolid c hc)
    have htrim := trim_append_left hleft htight
    have hpart : ',' ∉ left ++ text := by
      intro hmem
      rcases List.mem_append.mp hmem with hmem | hmem
      · exact hcomma hmem
      · exact absurd (hsolid ',' hmem) (by decide)
    cases texts with
    | nil =>
      unfold argumentTexts
      rw [List.intercalate_singleton, parts_of_not_mem hpart]
      simp [htrim, hne]
    | cons next texts =>
      have htail := ih hrest [' '] (List.all_eq_true.mp rfl) (by decide)
      unfold argumentTexts at htail ⊢
      rw [List.intercalate_cons_cons, ← List.append_assoc, ← List.append_assoc,
        List.append_assoc (left ++ text), List.cons_append, parts_append_cons hpart,
        List.map_cons, htrim, List.filter_cons_of_pos (by simpa using hne)]
      exact congrArg (text :: ·) htail

/-- The operand texts of a line are read as its operands. -/
theorem mapM_readArgument (operands : List Int32) :
    (operandTexts operands).mapM readArgument = .ok (operands.map Argument.word) := by
  induction operands with
  | nil => rfl
  | cons word operands ih =>
    have hword : readArgument (wordText word).toList = .ok (.word word) := by
      unfold readArgument
      rw [readWord?_wordText]
    unfold operandTexts at ih ⊢
    rw [List.map_cons, List.mapM_cons, hword, ih]
    rfl

/-- The texts of operands are not empty and solid. -/
theorem operandTexts_solid (operands : List Int32) :
    ∀ text ∈ operandTexts operands, text ≠ [] ∧ ∀ c ∈ text, isSolid c = true := by
  intro text htext
  obtain ⟨word, -, rfl⟩ := List.mem_map.mp htext
  exact ⟨wordText_ne_nil word, fun c hc => isSolid_of_mem_wordText hc⟩

/-- The name in front of a line is the mnemonic of the line. -/
theorem takeWhile_mnemonic (name tail : List Char) (hname : ∀ c ∈ name, isSolid c = true)
    (htail : ∀ c, tail.head? = some c → isBlank c = true) :
    (name ++ tail).takeWhile (fun c => !isBlank c) = name := by
  rw [List.takeWhile_append_of_pos fun c hc => by simp [isBlank_of_isSolid (hname c hc)]]
  cases tail with
  | nil => simp
  | cons c rest =>
    have hc := htail c rfl
    simp [hc]

/-- A mnemonic is read as its opcode. -/
theorem ofMnemonic?_name (opcode : Opcode) :
    Opcode.ofMnemonic? opcode.name.toList = some opcode := by
  cases opcode <;> decide

/-- A name is followed by a blank or by nothing. -/
theorem isBlank_head_operandTail {operands : List Int32} {c : Char}
    (h : (operandTail operands).head? = some c) : isBlank c = true := by
  unfold operandTail at h
  split at h
  · cases h
  · have hblank : ' ' = c := Option.some.inj h
    rw [← hblank]
    rfl

/-- Behind the blank the operands are found again. -/
theorem argumentTexts_operandTail (operands : List Int32) :
    argumentTexts ((operandTail operands).drop 1) = operandTexts operands := by
  have hdrop : (operandTail operands).drop 1 =
      [] ++ [',', ' '].intercalate (operandTexts operands) := by
    unfold operandTail
    split
    · rename_i hempty
      rw [List.isEmpty_iff.mp hempty]
      rfl
    · rfl
  rw [hdrop]
  exact argumentTexts_intercalate (operandTexts_solid operands) [] (by simp)

/-- No mnemonic is empty. -/
theorem name_ne_nil (opcode : Opcode) : opcode.name.toList ≠ [] := by
  cases opcode <;> decide

/-- A mnemonic with operands behind it is an instruction when the operands are as
many as the opcode asks for. -/
theorem readInstruction_opcode (address : Nat) (opcode : Opcode) (operands : List Int32) :
    readInstruction (Line.body ⟨address, .opcode opcode, operands⟩) =
      if operands.length = opcode.operandCount then
        .ok (some (opcode, operands.map Argument.word))
      else .error (.operandCount opcode operands.length) := by
  have hbody : Line.body ⟨address, .opcode opcode, operands⟩ =
      opcode.name.toList ++ operandTail operands := rfl
  have hmnemonic := takeWhile_mnemonic _ (operandTail operands) (isSolid_of_mem_name opcode)
    fun c hc => isBlank_head_operandTail hc
  have hrest : (opcode.name.toList ++ operandTail operands).drop (opcode.name.toList.length + 1) =
      (operandTail operands).drop 1 := by
    rw [List.drop_append]
    simp
  have hne : opcode.name.toList ++ operandTail operands ≠ [] := fun h =>
    name_ne_nil opcode (List.append_eq_nil_iff.mp h).1
  unfold readInstruction
  rw [hbody, if_neg (by rwa [List.isEmpty_iff])]
  dsimp only
  rw [hmnemonic, ofMnemonic?_name, hrest, argumentTexts_operandTail]
  dsimp only
  rw [mapM_readArgument]
  simp only [bind, Except.bind, List.length_map]
  rfl

/-- A word that encodes no opcode makes a line with a mnemonic that is none. -/
theorem readInstruction_data (address : Nat) (word : Int32) (operands : List Int32) :
    readInstruction (Line.body ⟨address, .data word, operands⟩) =
      .error (.unknownMnemonic ".word".toList) := by
  have hbody : ∃ rest, Line.body ⟨address, .data word, operands⟩ =
      ".word".toList ++ ' ' :: rest := by
    simp [Line.body, Head.text]
  obtain ⟨rest, hrest⟩ := hbody
  have hmnemonic := takeWhile_mnemonic ".word".toList (' ' :: rest) (List.all_eq_true.mp rfl)
    (by intro c hc; cases hc; decide)
  have hnone : Opcode.ofMnemonic? ".word".toList = none := by decide
  unfold readInstruction
  rw [hrest, if_neg (by simp)]
  dsimp only
  rw [hmnemonic, hnone]

/-- Texts with something between them end with the last of them. -/
theorem exists_intercalate_eq (separator : List Char) {texts : List (List Char)}
    (hne : texts ≠ []) :
    ∃ middle, ∃ last ∈ texts, separator.intercalate texts = middle ++ last := by
  induction texts with
  | nil => contradiction
  | cons text texts ih =>
    cases texts with
    | nil => exact ⟨[], text, List.mem_cons_self, by simp⟩
    | cons next texts =>
      obtain ⟨middle, last, hlast, heq⟩ := ih (by simp)
      refine ⟨text ++ (separator ++ middle), last, List.mem_cons_of_mem text hlast, ?_⟩
      rw [List.intercalate_cons_cons, heq]
      simp only [List.append_assoc]

/-- Between and inside the texts stands nothing else. -/
theorem of_mem_intercalate {separator : List Char} {texts : List (List Char)} {c : Char}
    (h : c ∈ separator.intercalate texts) : c ∈ separator ∨ ∃ text ∈ texts, c ∈ text := by
  induction texts with
  | nil => simp at h
  | cons text texts ih =>
    cases texts with
    | nil => exact Or.inr ⟨text, List.mem_cons_self, by simpa using h⟩
    | cons next texts =>
      rw [List.intercalate_cons_cons] at h
      rcases List.mem_append.mp h with h | h
      · rcases List.mem_append.mp h with h | h
        · exact Or.inr ⟨text, List.mem_cons_self, h⟩
        · exact Or.inl h
      · rcases ih h with h | ⟨other, hother, hc⟩
        · exact Or.inl h
        · exact Or.inr ⟨other, List.mem_cons_of_mem text hother, hc⟩

/-- The name in front of a line is tight. -/
theorem tight_head (head : Head) : Tight head.text.toList ∧ head.text.toList ≠ [] := by
  cases head with
  | opcode operation =>
    have htight : Tight operation.name.toList :=
      tight_of_forall fun c hc => isBlank_of_isSolid (isSolid_of_mem_name operation c hc)
    exact ⟨htight, name_ne_nil operation⟩
  | data word =>
    have htext : (Head.data word).text.toList =
        ".word".toList ++ ([' '] ++ (wordText word).toList) := by simp [Head.text]
    have hword : Tight (wordText word).toList :=
      tight_of_forall fun c hc => isBlank_of_isSolid (isSolid_of_mem_wordText hc)
    rw [htext]
    have hmark : Tight ".word".toList :=
      tight_of_forall fun c hc => isBlank_of_isSolid (List.all_eq_true.mp rfl c hc)
    exact ⟨tight_append hmark hword (by decide) (wordText_ne_nil word) [' '], by simp⟩

/-- What a line says has no blanks around it. -/
theorem tight_body (line : Line) : Tight line.body := by
  obtain ⟨htight, hne⟩ := tight_head line.head
  unfold Line.body operandTail
  split
  · rwa [List.append_nil]
  · rename_i hoperands
    have htexts : operandTexts line.operands ≠ [] := by simpa [operandTexts] using hoperands
    obtain ⟨middle, last, hlast, heq⟩ := exists_intercalate_eq [',', ' '] htexts
    obtain ⟨hne', hsolid⟩ := operandTexts_solid line.operands last hlast
    have hlasttight : Tight last := tight_of_forall fun c hc => isBlank_of_isSolid (hsolid c hc)
    rw [heq]
    exact tight_append htight hlasttight hne hne' (' ' :: middle)

/-- Inside a line stands nothing that would end it, end a label or begin a
comment. -/
theorem ne_of_mem_body {line : Line} {c : Char} (h : c ∈ line.body) :
    c ≠ ':' ∧ c ≠ ';' ∧ c ≠ '\n' := by
  have hsolid : ∀ d, isSolid d = true → d ≠ ':' ∧ d ≠ ';' ∧ d ≠ '\n' := by
    intro d hd
    refine ⟨?_, ?_, ?_⟩ <;> rintro rfl <;> exact absurd hd (by decide)
  have hmark : ∀ d ∈ ".word ".toList, d ≠ ':' ∧ d ≠ ';' ∧ d ≠ '\n' := by simp
  have hjoint : ∀ d ∈ [',', ' '], d ≠ ':' ∧ d ≠ ';' ∧ d ≠ '\n' := by simp
  rcases List.mem_append.mp h with hhead | htail
  · cases hline : line.head with
    | opcode operation =>
      rw [hline] at hhead
      exact hsolid c (isSolid_of_mem_name operation c hhead)
    | data word =>
      rw [hline, Head.text, String.toList_append] at hhead
      rcases List.mem_append.mp hhead with hname | hword
      · exact hmark c hname
      · exact hsolid c (isSolid_of_mem_wordText hword)
  · unfold operandTail at htail
    split at htail
    · cases htail
    · rcases List.mem_cons.mp htail with rfl | htail
      · decide
      · rcases of_mem_intercalate htail with hseparator | ⟨text, htext, hc⟩
        · exact hjoint c hseparator
        · exact hsolid c ((operandTexts_solid line.operands text htext).2 c hc)

/-- A text without a semicolon has no comment. -/
theorem takeWhile_comment {text : List Char} (h : ';' ∉ text) :
    text.takeWhile (fun c => decide (c ≠ ';')) = text := by
  rw [List.takeWhile_eq_self_iff]
  intro c hc
  refine decide_eq_true fun hmark => h ?_
  rwa [← hmark]

/-- Digits make an address column, which declares no label. -/
theorem readLabel_addressColumn {column : List Char} (hne : column ≠ [])
    (hcolumn : ∀ c ∈ column, c.isDigit = true) : readLabel column = .ok [] := by
  have htrim : trim column = column :=
    trim_of_tight (tight_of_forall fun c hc =>
      isBlank_of_isSolid (isSolid_of_isDigit (hcolumn c hc)))
  have haddress : isAddressColumn column = true := by
    simpa [isAddressColumn, hne] using hcolumn
  unfold readLabel
  dsimp only
  rw [htrim, if_pos haddress]

/-- A line with an address column says what is behind the column. -/
theorem readLine_addressColumn {column body : List Char} (hne : column ≠ [])
    (hcolumn : ∀ c ∈ column, c.isDigit = true) (hbody : ∀ c ∈ body, c ≠ ':' ∧ c ≠ ';' ∧ c ≠ '\n')
    (htight : Tight body) :
    readLine (column ++ ':' :: ' ' :: body ++ ['\n']) =
      (readInstruction body).map fun instruction => ⟨[], instruction⟩ := by
  have hline : column ++ ':' :: ' ' :: body ++ ['\n'] =
      column ++ ':' :: (' ' :: (body ++ ['\n'])) := by simp
  have hdigit {mark : Char} (hmark : mark.isDigit = false) : mark ∉ column := by
    intro hmem
    rw [hcolumn mark hmem] at hmark
    cases hmark
  have hcomment : ';' ∉ column ++ ':' :: (' ' :: (body ++ ['\n'])) := by
    have hmem : ';' ∉ body := fun hmem => (hbody ';' hmem).2.1 rfl
    simp [hdigit, hmem]
  have hcolon : ':' ∉ ' ' :: (body ++ ['\n']) := by
    have hmem : ':' ∉ body := fun hmem => (hbody ':' hmem).1 rfl
    simp [hmem]
  have hpieces : parts ':' (column ++ ':' :: (' ' :: (body ++ ['\n']))) =
      [column, ' ' :: (body ++ ['\n'])] := by
    rw [parts_append_cons (hdigit rfl), parts_of_not_mem hcolon]
  have htrim : trim (' ' :: (body ++ ['\n'])) = body :=
    trim_append [' '] ['\n'] (List.all_eq_true.mp rfl) (List.all_eq_true.mp rfl) htight
  have hlabels : [column].mapM readLabel = .ok [[]] := by
    rw [List.mapM_cons, readLabel_addressColumn hne hcolumn]
    rfl
  unfold readLine
  dsimp only
  rw [hline, takeWhile_comment hcomment, hpieces]
  change ([column].mapM readLabel >>= fun labels =>
    readInstruction (trim (' ' :: (body ++ ['\n']))) >>= fun instruction =>
      pure (⟨labels.flatten, instruction⟩ : Statement)) = _
  rw [hlabels, htrim]
  cases readInstruction body <;> rfl

/-- The line of a listing, with its end, says what its body says. -/
theorem readLine_text (line : Line) :
    readLine (line.text.toList ++ ['\n']) =
      (readInstruction line.body).map fun instruction => ⟨[], instruction⟩ := by
  rw [toList_text]
  exact readLine_addressColumn (addressText_ne_nil line.address)
    (fun c hc => isDigit_of_mem_addressText hc) (fun c hc => ne_of_mem_body hc) (tight_body line)

/-- The statement of a line with an opcode. -/
def lineStatement (line : Line) : Statement :=
  match line.head with
  | .opcode opcode => ⟨[], some (opcode, line.operands.map Argument.word)⟩
  | .data _ => ⟨[], none⟩

/-- A complete line is read as its instruction. -/
theorem readLine_of_complete {line : Line} (h : line.Complete) :
    readLine (line.text.toList ++ ['\n']) = .ok (lineStatement line) := by
  obtain ⟨address, head, operands⟩ := line
  obtain ⟨opcode, rfl, hcount⟩ := h
  rw [readLine_text, readInstruction_opcode, if_pos hcount]
  rfl

/-- A line that is not complete cannot be read. -/
theorem readLine_of_not_complete {line : Line} (h : ¬ line.Complete) :
    ∃ cause, readLine (line.text.toList ++ ['\n']) = .error cause := by
  obtain ⟨address, head, operands⟩ := line
  rw [readLine_text]
  cases head with
  | opcode opcode =>
    have hcount : operands.length ≠ opcode.operandCount := fun hcount =>
      h ⟨opcode, rfl, hcount⟩
    rw [readInstruction_opcode, if_neg hcount]
    exact ⟨_, rfl⟩
  | data word =>
    rw [readInstruction_data]
    exact ⟨_, rfl⟩

/-- Operands that are words are added as they are. -/
theorem foldl_addOperand_word (operands : List Int32) (builder : Builder) :
    (operands.map Operand.word).foldl Builder.addOperand builder =
      { builder with code := builder.code ++ operands.toArray } := by
  induction operands generalizing builder with
  | nil => simp
  | cons word operands ih =>
    rw [List.map_cons, List.foldl_cons, ih]
    simp [Builder.addOperand, Builder.addWord]

/-- Arguments that are words stand for themselves. -/
theorem operandsOf_word (operands : List Int32) (draft : Draft) :
    draft.operandsOf (operands.map Argument.word) = (operands.map Operand.word, draft) := by
  induction operands with
  | nil => rfl
  | cons word operands ih =>
    rw [List.map_cons, Draft.operandsOf]
    simp only [Draft.operandOf, ih, List.map_cons]

/-- The statement of a complete line adds the words of the line. -/
theorem addStatement_of_complete {line : Line} (h : line.Complete) (draft : Draft) :
    draft.addStatement (lineStatement line) =
      { draft with
        builder := { draft.builder with code := draft.builder.code ++ line.words.toArray } } := by
  obtain ⟨address, head, operands⟩ := line
  obtain ⟨opcode, rfl, hcount⟩ := h
  have hlength : (operands.map Operand.word).length = opcode.operandCount := by
    rw [List.length_map]
    exact hcount
  unfold Draft.addStatement lineStatement
  simp only [List.foldl_nil, operandsOf_word, Builder.instruction, hlength, if_true,
    foldl_addOperand_word]
  simp [Builder.addWord, Line.words, Head.word]

/-- The statements of complete lines add the words of all lines. -/
theorem foldl_addStatement {lines : List Line} (h : ∀ line ∈ lines, line.Complete)
    (draft : Draft) :
    (lines.map lineStatement).foldl Draft.addStatement draft =
      { draft with
        builder :=
          { draft.builder with
            code := draft.builder.code ++ (lines.flatMap Line.words).toArray } } := by
  induction lines generalizing draft with
  | nil => simp
  | cons line lines ih =>
    have hline := h line List.mem_cons_self
    have hrest := ih fun other hother => h other (List.mem_cons_of_mem line hother)
    rw [List.map_cons, List.foldl_cons, addStatement_of_complete hline, hrest]
    simp

/-- No line of a listing ends before its end. -/
theorem newline_not_mem_text (line : Line) : '\n' ∉ line.text.toList := by
  have hcolumn : '\n' ∉ (addressText line.address).toList := fun hmem =>
    absurd (isDigit_of_mem_addressText hmem) (by decide)
  have hbody : '\n' ∉ line.body := fun hmem => (ne_of_mem_body hmem).2.2 rfl
  rw [toList_text]
  simp [hcolumn, hbody]

/-- The lines of the text of a listing are the lines of the listing. -/
theorem splitLines_listing (lines : List Line) :
    splitLines (Listing.text lines).toList =
      lines.map fun line => line.text.toList ++ ['\n'] := by
  rw [toList_listing, splitLines_flatMap, List.map_map]
  · rfl
  · intro text htext
    obtain ⟨line, -, rfl⟩ := List.mem_map.mp htext
    exact newline_not_mem_text line

end Program

/-- The listing of a well-formed program is assembled into the program. -/
theorem assemble_of_wellFormed {program : Array Int32} (h : WellFormed program.toList) :
    assemble (disassemble program) = .ok program := by
  have hcomplete := (Listing.wellFormed_iff program.toList).mp h
  have hread : readSource (disassemble program).toList =
      .ok ((Listing.ofProgram program.toList).map lineStatement) := by
    unfold readSource sourceLines disassemble
    rw [splitLines_listing]
    exact mapM_read_of_ok (fun line hline => readLine_of_complete (hcomplete line hline)) 1 0
  have hwords : (Listing.ofProgram program.toList).flatMap Listing.Line.words = program.toList :=
    Listing.words_linesFrom 0 program.toList
  unfold assemble
  rw [hread]
  change ofStatements _ = _
  unfold ofStatements
  rw [foldl_addStatement hcomplete, hwords]
  simp [Draft.finish, Draft.undefinedName?, Builder.finish, Except.mapError]
  rfl

/-- The listing of a program that is not well formed has a line that cannot be
read. -/
theorem assemble_of_not_wellFormed {program : Array Int32} (h : ¬ WellFormed program.toList) :
    ∃ error, assemble (disassemble program) = .error error := by
  have hline : ∃ line ∈ Listing.ofProgram program.toList, ¬ line.Complete := by
    rw [Listing.wellFormed_iff] at h
    simpa only [not_forall, exists_prop] using h
  obtain ⟨line, hmem, hline⟩ := hline
  obtain ⟨cause, hcause⟩ := readLine_of_not_complete hline
  have hread : ∃ error, readSource (disassemble program).toList = .error error := by
    unfold readSource sourceLines disassemble
    rw [splitLines_listing]
    apply mapM_read_of_error
    exact ⟨line.text.toList ++ ['\n'], List.mem_map_of_mem hmem, cause, hcause⟩
  obtain ⟨error, herror⟩ := hread
  unfold assemble
  rw [herror]
  exact ⟨error, rfl⟩

/-- A program is assembled back from its listing exactly when it is well formed;
nothing else ever comes out of its listing, and a program that is not well formed
is reported. -/
theorem assemble_disassemble_iff (program : Array Int32) :
    (assemble (disassemble program) = .ok program ↔ WellFormed program.toList) ∧
      ((∃ code, assemble (disassemble program) = .ok code) ↔ WellFormed program.toList) ∧
      ((∃ error, assemble (disassemble program) = .error error) ↔
        ¬ WellFormed program.toList) := by
  by_cases h : WellFormed program.toList
  · have hok := assemble_of_wellFormed h
    simp [hok, h]
  · obtain ⟨error, herror⟩ := assemble_of_not_wellFormed h
    simp [herror, h]

end LanguageKit
