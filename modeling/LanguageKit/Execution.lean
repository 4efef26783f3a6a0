import LanguageKit.Machine
import LanguageKit.Program.Assembly
import LanguageKit.Program.Listing

/-!
# Executing program texts

A program text is assembled and the program is run from its beginning. What goes
wrong on the way is either a diagnostic of a stage or a fault of the machine.
-/

namespace LanguageKit

/-- What ends the work of the whole kit. -/
inductive Failure where
  /-- A stage reports a diagnostic. -/
  | diagnostic (report : Diagnostic)
  /-- The machine faults. -/
  | fault (cause : Fault)

/-- The wording of a failure. -/
def Failure.text : Failure → String
  | diagnostic report => report.text
  | fault cause => "runtime fault: " ++ cause.message

/-- A program together with the machine that has run it. -/
structure Execution where
  /-- The program. -/
  program : Array Int32
  /-- How the run ended; absent when its steps did not suffice. -/
  outcome : Option (Except Fault Unit)
  /-- The machine after the run. -/
  machine : Machine

/-- Runs a program from its beginning, for at most a number of steps. -/
def Execution.ofProgram (budget : Nat) (program : Array Int32) : Execution :=
  let (outcome, machine) := (Machine.load program false {}).run budget
  ⟨program, outcome, machine⟩

/-- Assembles a text and runs the program. -/
def Execution.ofText (budget : Nat) (source : String) : Except Diagnostic Execution :=
  match assemble source with
  | .ok program => .ok (Execution.ofProgram budget program)
  | .error error => .error error.diagnostic

end LanguageKit
