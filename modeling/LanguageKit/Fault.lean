import LanguageKit.Diagnostic
import LanguageKit.Opcode
import LanguageKit.Sink

/-!
# Faults of a running program

A fault ends a step of the machine. It carries the address it happened at, and
turns into a diagnostic of the running stage.
-/

namespace LanguageKit

open Text

/-- Why a step could not be carried out. -/
inductive Fault where
  /-- The machine should go on outside the program. -/
  | outside (target : Int) (length : Nat)
  /-- The program ends before the operands of an instruction. -/
  | missingOperand (pc : Nat) (opcode : Opcode)
  /-- A word that encodes no opcode should be executed. -/
  | unknownOpcode (pc : Nat) (word : Int32)
  /-- An instruction needs more words than are live. -/
  | stackUnderflow (pc : Nat) (opcode : Opcode)
  /-- An instruction divides by zero. -/
  | divideByZero (pc : Nat) (opcode : Opcode)
  /-- The output was refused. -/
  | refusedOutput (pc : Nat) (refusal : Refusal)
  deriving DecidableEq

namespace Fault

/-- The address of the faulting instruction, when it lies in the program. -/
def pc? : Fault → Option Nat
  | outside .. => none
  | missingOperand pc _ | unknownOpcode pc _ | stackUnderflow pc _ | divideByZero pc _
  | refusedOutput pc _ => some pc

/-- The wording of a fault. -/
def message : Fault → String
  | outside target length =>
    "program counter " ++ intText target ++ " is outside the program (length " ++
      natText length ++ ")"
  | missingOperand pc opcode =>
    "`" ++ opcode.name ++ "` at " ++ addressText pc ++ " is missing an operand"
  | unknownOpcode pc unknown => "unknown opcode " ++ wordText unknown ++ " at " ++ addressText pc
  | stackUnderflow pc opcode => "stack underflow in `" ++ opcode.name ++ "` at " ++ addressText pc
  | divideByZero pc opcode => "division by zero in `" ++ opcode.name ++ "` at " ++ addressText pc
  | refusedOutput pc refusal =>
    "writing program output at " ++ addressText pc ++ " failed: " ++ refusal.text

/-- The diagnostic of a fault: its wording, and its address as a note. -/
def diagnostic (fault : Fault) : Diagnostic :=
  { stage := .runtime
    message := fault.message
    notes := match fault.pc? with
      | some pc => ["faulting address: " ++ addressText pc]
      | none => [] }

end Fault

end LanguageKit
