import LanguageKit.Opcode

/-!
# Program listings

A listing cuts a program into lines: an instruction with its operands, or a
single word that encodes no opcode. The last instruction may have lost operands
to the end of the program. The text of a listing has one line per instruction,
each with its address in front.
-/

namespace LanguageKit

open Text

/-- What stands at the beginning of a line. -/
inductive Listing.Head where
  /-- An opcode. -/
  | opcode (operation : Opcode)
  /-- A word that encodes none. -/
  | data (word : Int32)
  deriving DecidableEq

/-- One line of a listing. -/
structure Listing.Line where
  /-- The address of the first word of the line. -/
  address : Nat
  /-- The opcode, or the word that encodes none. -/
  head : Listing.Head
  /-- The operands that the program has for the opcode. -/
  operands : List Int32
  deriving DecidableEq

namespace Listing

/-- The word at the beginning of a line. -/
def Head.word : Head → Int32
  | .opcode operation => operation.word
  | .data word => word

/-- The name shown for the beginning of a line. -/
def Head.text : Head → String
  | .opcode operation => operation.name
  | .data unknown => ".word " ++ wordText unknown

/-- The words of a line. -/
def Line.words (line : Line) : List Int32 := line.head.word :: line.operands

/-- The text of a line without its end: the address, the name, and the operands
with commas between them. -/
def Line.text (line : Line) : String :=
  addressText line.address ++ ": " ++ line.head.text ++
    (if line.operands.isEmpty then ""
      else " " ++ ", ".intercalate (line.operands.map wordText))

/-- The lines of the words from an address on. -/
def linesFrom (address : Nat) : List Int32 → List Line
  | [] => []
  | first :: rest =>
    match Opcode.ofWord? first with
    | none => ⟨address, .data first, []⟩ :: linesFrom (address + 1) rest
    | some opcode =>
      let operands := rest.take opcode.operandCount
      ⟨address, .opcode opcode, operands⟩ ::
        linesFrom (address + 1 + operands.length) (rest.drop opcode.operandCount)
termination_by words => words.length
decreasing_by
  all_goals simp only [List.length_cons, List.length_drop]
  all_goals omega

/-- The words of the lines, in order, are the words that were cut into lines. -/
theorem words_linesFrom (address : Nat) (words : List Int32) :
    (linesFrom address words).flatMap Line.words = words := by
  fun_induction linesFrom address words with
  | case1 => rfl
  | case2 address first rest _ ih => simp [Line.words, Head.word, ih]
  | case3 address first rest opcode h operands ih =>
    have hword : opcode.word = first := Opcode.word_of_ofWord? h
    rw [List.flatMap_cons, ih]
    simp only [Line.words, Head.word, hword, operands, List.cons_append, List.take_append_drop]

/-- The listing of a program. -/
def ofProgram (program : List Int32) : List Line := linesFrom 0 program

/-- The text of a listing: its lines, each with its end. -/
def text (lines : List Line) : String := String.join (lines.map fun line => line.text ++ "\n")

end Listing

/-- The text form of a program: the text of its listing. -/
def disassemble (program : Array Int32) : String := Listing.text (Listing.ofProgram program.toList)

end LanguageKit
