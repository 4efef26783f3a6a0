import LanguageKit.Text.FullForm

/-!
# Instruction set

A program is a flat sequence of signed 32-bit words: the word of an opcode,
followed by the operands the opcode asks for. Every opcode has a word and a
mnemonic; both determine it.
-/

namespace LanguageKit

open Text

/-- The operations of the machine, in the order of their words. -/
inductive Opcode where
  /-- Stops the machine. -/
  | halt
  /-- Does nothing. -/
  | nop
  /-- Pushes its operand. -/
  | push
  /-- Drops the top of the stack. -/
  | pop
  /-- Replaces the two topmost words by their sum. -/
  | add
  /-- Pops two words and keeps their double-width product in two registers. -/
  | mul
  /-- Pops two words and keeps quotient and remainder in two registers. -/
  | div
  /-- Replaces the two topmost words by the remainder of their division. -/
  | mod
  /-- Pops a word and writes it. -/
  | print
  /-- Jumps when the top of the stack equals the first operand. -/
  | jeq
  /-- Jumps when the top of the stack differs from the first operand. -/
  | jne
  /-- Jumps. -/
  | j
  /-- Replaces the top by whether it is less than the operand. -/
  | slt
  /-- Shifts to the left. -/
  | sll
  /-- Shifts to the right, filling with zeros. -/
  | srl
  deriving DecidableEq, Inhabited

namespace Opcode

/-- All opcodes; each stands at the place its word names. -/
def all : List Opcode :=
  [halt, nop, push, pop, add, mul, div, mod, print, jeq, jne, j, slt, sll, srl]

/-- The mnemonic of an opcode. -/
def name : Opcode → String
  | halt => "halt"
  | nop => "nop"
  | push => "push"
  | pop => "pop"
  | add => "add"
  | mul => "mul"
  | div => "div"
  | mod => "mod"
  | print => "print"
  | jeq => "jeq"
  | jne => "jne"
  | j => "j"
  | slt => "slt"
  | sll => "sll"
  | srl => "srl"

/-- The name of an opcode among the constructors of the instruction set. -/
def capitalName (opcode : Opcode) : String := opcode.name.capitalize

/-- The number of operand words that follow an opcode. -/
def operandCount : Opcode → Nat
  | push | j | slt => 1
  | jeq | jne => 2
  | _ => 0

/-- The word that encodes an opcode. -/
def word : Opcode → Int32
  | halt => 0
  | nop => 1
  | push => 2
  | pop => 3
  | add => 4
  | mul => 5
  | div => 6
  | mod => 7
  | print => 8
  | jeq => 9
  | jne => 10
  | j => 11
  | slt => 12
  | sll => 13
  | srl => 14

/-- The opcode a word encodes, if it encodes one. -/
def ofWord? (word : Int32) : Option Opcode := all.find? fun opcode => opcode.word == word

/-- The opcode with a given mnemonic, in upper or lower case. -/
def ofMnemonic? (mnemonic : List Char) : Option Opcode :=
  all.find? fun opcode => opcode.name.toList == mnemonic.map Char.toLower

/-- What is said about a mnemonic that names no opcode. -/
def unknownMnemonic (mnemonic : String) : String := "unknown mnemonic `" ++ mnemonic ++ "`"

/-- The full form is the capitalised mnemonic. -/
instance : FullForm Opcode := ⟨capitalName⟩

/-- Every opcode is listed. -/
theorem mem_all (opcode : Opcode) : opcode ∈ all := by cases opcode <;> decide

/-- The word of an opcode encodes it. -/
theorem ofWord?_word (opcode : Opcode) : ofWord? opcode.word = some opcode := by
  cases opcode <;> decide

/-- A word encodes an opcode only as the word of that opcode. -/
theorem word_of_ofWord? {w : Int32} {opcode : Opcode} (h : ofWord? w = some opcode) :
    opcode.word = w := by
  unfold ofWord? at h
  simpa using List.find?_some h

end Opcode

end LanguageKit
