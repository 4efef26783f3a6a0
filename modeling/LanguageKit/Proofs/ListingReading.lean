import LanguageKit.Proofs.ListingLines
import LanguageKit.Proofs.ListingRoundTrip

/-!
# Listings read line by line

A listing can be read without assembling it: every line says its address and its words, also a
line with a word that encodes no opcode and one whose operands the program cuts off. So the
text of a listing has its lines in it, and the lines have the program. No two programs share a
listing, well formed or not.

The lines are found by going through the program from one address to the next. This ends after
as many lines as there are words at most, since every line takes one word or more.
-/

namespace LanguageKit

open Text Program

namespace Listing

/-- Reads what stands behind the address of a line: the mark of a word that encodes no opcode
and the word, or a mnemonic and operands, however many there are. -/
def readBody? (body : List Char) : Option (Head × List Int32) :=
  let name := body.takeWhile fun c => !isBlank c
  let behind := body.drop (name.length + 1)
  if name = ".word".toList then (readWord? behind).map fun word => (.data word, [])
  else do
    let opcode ← Opcode.ofMnemonic? name
    let operands ← (argumentTexts behind).mapM readWord?
    return (.opcode opcode, operands)

/-- Reads a line without its end. -/
def readLine? (text : List Char) : Option Line := do
  let column := text.takeWhile fun c => c.isDigit
  let address ← magnitude? 10 column
  let (head, operands) ← readBody? (text.drop (column.length + 2))
  return ⟨address, head, operands⟩

/-- Reads the text of a listing. -/
def readText? (text : List Char) : Option (List Line) :=
  (splitLines text).mapM fun line => readLine? line.dropLast

/-- The lines of a program from an address on, found by going from the address of each line to
that of the next, for a number of lines at most. They are absent if these do not suffice. -/
def scanFrom (program : Array Int32) : Nat → Nat → Option (List Line)
  | budget, address =>
    if inside : address < program.size then
      match budget with
      | 0 => none
      | budget + 1 =>
        match Opcode.ofWord? program[address] with
        | some opcode =>
          let stop := min (address + 1 + opcode.operandCount) program.size
          let operands := (program.extract (address + 1) stop).toList
          (scanFrom program budget stop).map (⟨address, .opcode opcode, operands⟩ :: ·)
        | none =>
          (scanFrom program budget (address + 1)).map (⟨address, .data program[address], []⟩ :: ·)
    else some []

/-- Lines whose words lie one behind the other, from one address to another: every line begins
where the words of the line before it end. -/
def Blocks : Nat → List Line → Nat → Prop
  | start, [], stop => start = stop
  | start, line :: rest, stop =>
    line.address = start ∧ Blocks (start + line.words.length) rest stop

/-- An address column is read as the address. -/
theorem magnitude?_addressText (address : Nat) :
    magnitude? 10 (addressText address).toList = some address := by
  rw [magnitude?_of_digits (addressText_ne_nil address)
    fun c hc => isDigit_of_mem_addressText hc]
  unfold addressText
  rw [String.toList_ofList, Nat.ofDigitChars_append, Nat.ofDigitChars_replicate_zero, Nat.mul_zero,
    Nat.ofDigitChars_ten_toDigits]

/-- The operands of a line are read. -/
theorem mapM_readWord? (operands : List Int32) :
    (operandTexts operands).mapM readWord? = some operands := by
  induction operands with
  | nil => rfl
  | cons word operands ih =>
    unfold operandTexts at ih ⊢
    rw [List.map_cons, List.mapM_cons, readWord?_wordText, ih]
    rfl

/-- No mnemonic is the mark of a word that encodes no opcode. -/
theorem name_ne_mark (opcode : Opcode) : opcode.name.toList ≠ ".word".toList := by
  cases opcode <;> decide

/-- A mnemonic and operands are read as they are. -/
theorem readBody?_opcode (opcode : Opcode) (operands : List Int32) :
    readBody? (opcode.name.toList ++ operandTail operands) =
      some (.opcode opcode, operands) := by
  have hname := takeWhile_mnemonic _ (operandTail operands) (isSolid_of_mem_name opcode)
    fun c hc => isBlank_head_operandTail hc
  have hbehind : (opcode.name.toList ++ operandTail operands).drop (opcode.name.toList.length + 1) =
      (operandTail operands).drop 1 := by
    rw [← List.drop_drop, List.drop_left]
  unfold readBody?
  dsimp only
  rw [hname, if_neg (name_ne_mark opcode), hbehind, argumentTexts_operandTail, ofMnemonic?_name,
    mapM_readWord?]
  rfl

/-- The mark and the word behind it are read as the word. -/
theorem readBody?_data (word : Int32) :
    readBody? (Head.data word).text.toList = some (.data word, []) := by
  have hbody : (Head.data word).text.toList = ".word".toList ++ ' ' :: (wordText word).toList := by
    simp [Head.text]
  have hname := takeWhile_mnemonic ".word".toList (' ' :: (wordText word).toList)
    (List.all_eq_true.mp rfl) (by intro c hc; cases hc; decide)
  have hbehind : (".word".toList ++ ' ' :: (wordText word).toList).drop
      (".word".toList.length + 1) = (wordText word).toList := by
    rw [← List.drop_drop, List.drop_left]
    rfl
  unfold readBody?
  dsimp only
  rw [hbody, hname, if_pos rfl, hbehind, readWord?_wordText]
  rfl

/-- A line without operands behind a word that encodes no opcode is read as it is. -/
theorem readLine?_text {line : Line} (h : ∀ word, line.head = .data word → line.operands = []) :
    readLine? line.text.toList = some line := by
  have hcolumn : line.text.toList.takeWhile (fun c => c.isDigit) =
      (addressText line.address).toList := by
    rw [toList_text, List.takeWhile_append_of_pos fun c hc => isDigit_of_mem_addressText hc]
    simp
  have hbody : line.text.toList.drop ((addressText line.address).toList.length + 2) =
      line.body := by
    rw [toList_text, ← List.drop_drop, List.drop_left]
    rfl
  have hread : readBody? line.body = some (line.head, line.operands) := by
    unfold Line.body
    cases hhead : line.head with
    | opcode opcode => exact readBody?_opcode opcode line.operands
    | data word =>
      rw [h word hhead]
      simpa [operandTail] using readBody?_data word
  unfold readLine?
  dsimp only
  rw [hcolumn, magnitude?_addressText, hbody, hread]
  rfl

/-- In a listing no operands stand behind a word that encodes no opcode. -/
theorem operands_eq_nil_of_mem {program : List Int32} {line : Line} (h : line ∈ ofProgram program)
    (word : Int32) (hhead : line.head = .data word) : line.operands = [] := by
  obtain ⟨before, after, hlines⟩ := List.mem_iff_append.mp h
  obtain ⟨-, rest, -, -, -, hdecodes⟩ := ofProgram_eq_append hlines
  unfold Line.Decodes at hdecodes
  rw [hhead] at hdecodes
  exact hdecodes.2

/-- The lines of a listing are found in its text. -/
theorem readText?_text (program : List Int32) :
    readText? (text (ofProgram program)).toList = some (ofProgram program) := by
  have hlines : ∀ line ∈ ofProgram program,
      readLine? (line.text.toList ++ ['\n']).dropLast = some line := by
    intro line hline
    rw [List.dropLast_concat]
    exact readLine?_text (operands_eq_nil_of_mem hline)
  unfold readText?
  rw [splitLines_listing]
  generalize ofProgram program = lines at hlines
  induction lines with
  | nil => rfl
  | cons line lines ih =>
    have hrest := ih fun other hother => hlines other (List.mem_cons_of_mem line hother)
    rw [List.map_cons, List.mapM_cons, hlines line List.mem_cons_self, hrest]
    rfl

/-- The lines of words lie one behind the other, up to the end of the words. -/
theorem blocks_linesFrom (address : Nat) (words : List Int32) :
    Blocks address (linesFrom address words) (address + words.length) := by
  fun_induction linesFrom address words with
  | case1 => rfl
  | case2 address first rest _ ih =>
    rw [Nat.add_assoc, Nat.add_comm 1] at ih
    exact ⟨rfl, ih⟩
  | case3 address first rest opcode _ operands ih =>
    have hwords : operands.length + (rest.drop opcode.operandCount).length = rest.length := by
      rw [← List.length_append, List.take_append_drop]
    have hstart : address + (operands.length + 1) = address + 1 + operands.length := by omega
    have hstop : address + (rest.length + 1) =
        address + 1 + operands.length + (rest.drop opcode.operandCount).length := by omega
    refine ⟨rfl, ?_⟩
    change Blocks (address + (operands.length + 1)) _ (address + (rest.length + 1))
    rw [hstart, hstop]
    exact ih

/-- Addresses grow from line to line, since every line takes a word. -/
theorem Blocks.increasing {start stop : Nat} {lines : List Line} (h : Blocks start lines stop) :
    (∀ line ∈ lines, start ≤ line.address) ∧ (lines.map Line.address).Pairwise (· < ·) := by
  induction lines generalizing start with
  | nil => exact ⟨by simp, List.Pairwise.nil⟩
  | cons line lines ih =>
    obtain ⟨haddress, hrest⟩ := h
    obtain ⟨hlater, hincreasing⟩ := ih hrest
    have hword : 1 ≤ line.words.length := by
      rw [Line.words, List.length_cons]
      exact Nat.le_add_left 1 _
    constructor
    · intro other hother
      rcases List.mem_cons.mp hother with rfl | hother
      · exact Nat.le_of_eq haddress.symm
      · have := hlater other hother
        omega
    · rw [List.map_cons, List.pairwise_cons]
      refine ⟨fun address haddress' => ?_, hincreasing⟩
      obtain ⟨other, hother, rfl⟩ := List.mem_map.mp haddress'
      have := hlater other hother
      omega

/-- Words of a program from a place on, as many as there are up to a number: what they are,
where they end, and what is left behind them. -/
theorem words_up_to {program : Array Int32} {first stop count : Nat}
    (hfirst : first ≤ program.size) (hstop : stop = min (first + count) program.size) :
    (program.extract first stop).toList = (program.toList.drop first).take count ∧
      first + ((program.toList.drop first).take count).length = stop ∧
      program.toList.drop stop = (program.toList.drop first).drop count := by
  have hlength : (program.toList.drop first).length = program.size - first := by
    rw [List.length_drop, Array.length_toList]
  refine ⟨?_, ?_, ?_⟩
  · rw [Array.toList_extract, List.extract_eq_take_drop, List.take_eq_take_iff]
    omega
  · rw [List.length_take]
    omega
  · rw [List.drop_drop, List.drop_eq_drop_iff, Array.length_toList]
    omega

/-- Going from line to line finds the lines of the words that are left, if as many lines are
allowed as words are left. -/
theorem scanFrom_eq {program : Array Int32} {budget address : Nat}
    (h : program.size ≤ address + budget) :
    scanFrom program budget address = some (linesFrom address (program.toList.drop address)) := by
  induction budget generalizing address with
  | zero =>
    have hend : ¬ address < program.size := by omega
    have hnil : program.toList.drop address = [] :=
      List.drop_eq_nil_of_le (by rw [Array.length_toList]; omega)
    rw [scanFrom, dif_neg hend, hnil, linesFrom]
  | succ budget ih =>
    by_cases hinside : address < program.size
    · have hlength : address < program.toList.length := by rwa [Array.length_toList]
      have hdrop : program.toList.drop address =
          program[address] :: program.toList.drop (address + 1) := by
        rw [List.drop_eq_getElem_cons hlength, Array.getElem_toList]
      rw [scanFrom, dif_pos hinside, hdrop, linesFrom]
      dsimp only
      cases hword : Opcode.ofWord? program[address] with
      | none =>
        have hnext := ih (by omega : program.size ≤ address + 1 + budget)
        dsimp only
        rw [hnext]
        rfl
      | some opcode =>
        -- the operands are the words up to the end of the program, if it comes before theirs
        dsimp only
        generalize hstop : min (address + 1 + opcode.operandCount) program.size = stop
        have hfirst : address + 1 ≤ program.size := hinside
        obtain ⟨hoperands, hend, hrest⟩ := words_up_to hfirst hstop.symm
        have hnext := ih (by omega : program.size ≤ stop + budget)
        rw [hnext, hoperands, hrest, hend]
        rfl
    · have hnil : program.toList.drop address = [] :=
        List.drop_eq_nil_of_le (by rw [Array.length_toList]; omega)
      rw [scanFrom, dif_neg hinside, hnil, linesFrom]

end Listing

/-- A listing loses nothing: programs with the same listing are the same, well formed or not.
Going from line to line ends after as many lines as there are words at most, and finds the
lines that stand in the text, from which they can be read. They lie one behind the other from
the beginning of the program to its end, so that their addresses grow, and the words each of
them names are those of the program at its address; all together are the program. -/
theorem listing_loses_nothing (program : Array Int32) :
    (∀ other, disassemble program = disassemble other → program = other) ∧
      let lines := Listing.ofProgram program.toList
      Listing.scanFrom program program.size 0 = some lines ∧
      splitLines (disassemble program).toList =
        lines.map (fun line => line.text.toList ++ ['\n']) ∧
      Listing.readText? (disassemble program).toList = some lines ∧
      Listing.Blocks 0 lines program.size ∧
      (lines.map Listing.Line.address).Pairwise (· < ·) ∧
      (∀ line ∈ lines,
        (program.toList.drop line.address).take line.words.length = line.words) ∧
      lines.flatMap Listing.Line.words = program.toList := by
  have hread (program : Array Int32) := Listing.readText?_text program.toList
  have hwords (program : Array Int32) := Listing.words_linesFrom 0 program.toList
  have hblocks : Listing.Blocks 0 (Listing.ofProgram program.toList) program.size := by
    have hall := Listing.blocks_linesFrom 0 program.toList
    rwa [Nat.zero_add, Array.length_toList] at hall
  refine ⟨fun other hsame => ?_, ?_, splitLines_listing _, hread program, hblocks,
    hblocks.increasing.2, fun line hline => ?_, hwords program⟩
  · have htext : Listing.text (Listing.ofProgram program.toList) =
        Listing.text (Listing.ofProgram other.toList) := hsame
    have hlines : Listing.ofProgram program.toList = Listing.ofProgram other.toList := by
      rw [← Option.some_inj, ← hread program, ← hread other, htext]
    have hlist : program.toList = other.toList := by
      rw [← hwords program, ← hwords other]
      exact congrArg (List.flatMap Listing.Line.words) hlines
    exact Array.toList_inj.mp hlist
  · exact Listing.scanFrom_eq (Nat.le_of_eq (Nat.zero_add _).symm)
  · obtain ⟨before, after, hsplit⟩ := List.mem_iff_append.mp hline
    obtain ⟨front, rest, hprogram, haddress, -, -⟩ := Listing.ofProgram_eq_append hsplit
    rw [hprogram, haddress, List.drop_left, List.take_left]

/-- A word that is no opcode, and an instruction that lost its last operand. -/
example : Listing.readText? "0000: .word 99\n0001: jeq -7\n".toList =
    some [⟨0, .data 99, []⟩, ⟨1, .opcode .jeq, [-7]⟩] := by
  decide +kernel

end LanguageKit
