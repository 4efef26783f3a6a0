import LanguageKit.Item

/-!
# Diagnostics

A diagnostic is the final report of a stage that could not go on: a message,
the place it speaks of when there is one, and notes. The report is one line for
the message and one line for each note.
-/

namespace LanguageKit

open Text

/-- The stage that produced a diagnostic. -/
inductive Stage where
  /-- Scanning text into items. -/
  | lexer
  /-- Parsing items into expressions. -/
  | parser
  /-- Building or assembling a program. -/
  | assembler
  /-- Running a program. -/
  | runtime
  deriving DecidableEq, Inhabited

/-- The name under which a report mentions the stage. -/
def Stage.text : Stage → String
  | lexer => "scan"
  | parser => "parse"
  | assembler => "assembly"
  | runtime => "runtime"

/-- The full form is the name of the stage itself. -/
instance : FullForm Stage :=
  ⟨fun
    | .lexer => "Lexer"
    | .parser => "Parser"
    | .assembler => "Assembler"
    | .runtime => "Runtime"⟩

/-- The final report of a stage. -/
structure Diagnostic where
  /-- The stage that reports. -/
  stage : Stage
  /-- What went wrong. -/
  message : String
  /-- Where it went wrong, when the stage knows. -/
  span : Option Span := none
  /-- Additional remarks, in the order they were added. -/
  notes : List String := []
  deriving DecidableEq, Inhabited

namespace Diagnostic

/-- Places the diagnostic; a later place replaces an earlier one. -/
def located (diagnostic : Diagnostic) (span : Span) : Diagnostic :=
  ⟨diagnostic.stage, diagnostic.message, some span, diagnostic.notes⟩

/-- Adds a note behind the notes there are. -/
def noted (diagnostic : Diagnostic) (note : String) : Diagnostic :=
  ⟨diagnostic.stage, diagnostic.message, diagnostic.span, diagnostic.notes ++ [note]⟩

/-- The diagnostic of a scanning failure: its message, at its place. -/
def ofFailure (item : Item) : Diagnostic :=
  { stage := .lexer, message := item.lexeme, span := some item.span }

/-- The report: stage, place and message in the first line, then each note in a
line of its own. -/
def text (diagnostic : Diagnostic) : String :=
  diagnostic.stage.text ++ " error" ++
    (match diagnostic.span with
      | some span => " at " ++ span.text
      | none => "") ++
    ": " ++ diagnostic.message ++ String.join (diagnostic.notes.map ("\n  = " ++ ·))

/-- The full form names all four parts. -/
instance : FullForm Diagnostic :=
  ⟨fun diagnostic => recordForm "Diagnostic"
    [("kind", fullForm diagnostic.stage), ("message", fullForm diagnostic.message),
      ("span", fullForm diagnostic.span), ("notes", fullForm diagnostic.notes)]⟩

end Diagnostic

end LanguageKit
