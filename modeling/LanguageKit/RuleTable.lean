import LanguageKit.Scan

/-!
# Scanners given by tables

A rule table describes a scanner by data. Every state has a list of rules; the
first rule whose condition holds is applied: its effects are carried out in
order, and its target is the next state. A condition is itself a command to the
lexer and moves the cursor also when it fails. A state without a rule that
applies, and one that the table does not list, stops the scan.
-/

namespace LanguageKit

open Text

/-- Classes of characters a table can name. -/
inductive CharClass where
  /-- The ASCII digits. -/
  | digit
  /-- The ASCII letters. -/
  | letter
  /-- The ASCII letters and digits. -/
  | alphanumeric
  /-- The blank, the tabulator and the two ends of a line. -/
  | blank
  /-- Everything beyond ASCII. -/
  | beyondAscii
  /-- Every character. -/
  | any
  /-- No character. -/
  | none
  deriving DecidableEq

/-- Whether a character belongs to a class. -/
def CharClass.holds (c : Char) : CharClass → Bool
  | digit => c.isDigit
  | letter => c.isAlpha
  | alphanumeric => c.isAlphanum
  | blank => c == ' ' || c == '\t' || c == '\n' || c == '\r'
  | beyondAscii => 0x7f < c.toNat
  | any => true
  | none => false

/-- What the command of a table answers. -/
inductive Answer where
  /-- Nothing. -/
  | nothing
  /-- A truth value. -/
  | flag (value : Bool)
  /-- A number. -/
  | number (value : Nat)
  /-- A text. -/
  | text (value : String)
  deriving DecidableEq

/-- An answer holds unless it is nothing, false, zero or the empty text. -/
def Answer.holds : Answer → Bool
  | nothing => false
  | flag value => value
  | number value => value != 0
  | text value => value != ""

/-- The commands a table can give to the lexer. -/
inductive Command where
  /-- Consumes one code point. -/
  | next
  /-- Looks at the next code point. -/
  | peek
  /-- Whether nothing is left. -/
  | atEnd
  /-- Gives the last code point back. -/
  | backup
  /-- Drops the pending text. -/
  | ignore
  /-- Publishes the pending text. -/
  | emit (token : Token)
  /-- Consumes a code point of a set. -/
  | accept (valid : String)
  /-- Consumes the code points of a set. -/
  | acceptRun (valid : String)
  /-- Consumes a literal. -/
  | acceptPrefix (literal : String)
  /-- Consumes a code point of a class. -/
  | acceptIf (members : CharClass)
  /-- Consumes the code points of a class, at most as many as a limit says. -/
  | acceptWhile (members : CharClass) (limit : Option Nat)
  /-- Publishes a failure. -/
  | fail (message : String)
  /-- Shows the text ahead. -/
  | remainingInput
  /-- Shows the whole text. -/
  | input
  /-- Shows the pending text. -/
  | pending
  /-- Shows where the pending text starts. -/
  | start
  /-- Shows where the cursor stands. -/
  | position
  /-- Shows the full form of the lexer. -/
  | inspect
  deriving DecidableEq

namespace Command

/-- The request a command makes. -/
@[reducible] def request : Command → Lexer.Request
  | next => .next
  | peek => .peek
  | atEnd => .peek
  | backup => .backup
  | ignore => .ignore
  | emit token => .emit token
  | accept valid => .accept valid
  | acceptRun valid => .acceptRun valid
  | acceptPrefix literal => .acceptPrefix literal
  | acceptIf members => .acceptIf fun c => members.holds c
  | acceptWhile members none => .acceptWhile fun _ c => members.holds c
  | acceptWhile members (some limit) =>
    .acceptWhile fun accepted c => accepted.length < limit && members.holds c
  | fail message => .fail message
  | remainingInput => .remainingInput
  | input => .input
  | pending => .pending
  | start => .start
  | position => .position
  | inspect => .inspect

/-- One code point as an answer. -/
def ofChar? : Option Char → Answer
  | some c => .text (String.singleton c)
  | none => .nothing

/-- The answer of a command. A failure answers that there is no next state. -/
def answer : (command : Command) → command.request.Reply → Answer
  | next, reply => ofChar? reply
  | peek, reply => ofChar? reply
  | atEnd, reply => .flag reply.isNone
  | backup, _ => .nothing
  | ignore, _ => .nothing
  | emit _, _ => .nothing
  | accept _, reply => .flag reply
  | acceptRun _, reply => .number reply
  | acceptPrefix _, reply => .flag reply
  | acceptIf _, reply => .flag reply
  | acceptWhile _ none, reply => .number reply
  | acceptWhile _ (some _), reply => .number reply
  | fail _, _ => .flag false
  | remainingInput, reply => .text reply
  | input, reply => .text reply
  | pending, reply => .text reply
  | start, reply => .number reply
  | position, reply => .number reply
  | inspect, reply => .text reply

/-- Carries out a command. -/
def perform (command : Command) (lexer : Lexer) : Except CutError (Answer × Lexer) :=
  (lexer.perform command.request).map fun result => (command.answer result.1, result.2)

end Command

/-- What a rule does when it is applied. -/
inductive Effect where
  /-- Carries out a command, whatever it answers. -/
  | command (command : Command)
  /-- Publishes a failure and stops the scan. -/
  | giveUp (message : String)
  deriving DecidableEq

/-- One rule of a state. -/
structure Rule where
  /-- The condition; a rule without one always applies. -/
  condition : Option Command
  /-- What the rule does. -/
  effects : List Effect
  /-- The next state. -/
  target : Option String
  deriving DecidableEq

/-- The states of a table with their rules. -/
abbrev RuleTable : Type := List (String × List Rule)

/-- The action that carries out effects in order and then goes to a state. -/
def Rule.effectAction (target : Option String) : List Effect → Action String
  | [] => .stop target
  | .command command :: rest => .ask command.request fun _ => effectAction target rest
  | .giveUp message :: _ => .ask (.fail message) fun _ => .stop none

/-- The action that applies the first rule whose condition holds. -/
def Rule.firstAction : List Rule → Action String
  | [] => .stop none
  | rule :: rest =>
    match rule.condition with
    | none => effectAction rule.target rule.effects
    | some condition =>
      .ask condition.request fun reply =>
        if (condition.answer reply).holds then effectAction rule.target rule.effects
        else firstAction rest

/-- The scanner a table describes. -/
def RuleTable.scanner (table : RuleTable) : Scanner String :=
  fun state => Rule.firstAction ((table.lookup state).getD [])

end LanguageKit
