import LanguageKit.Item

/-!
# Events

What the stages record while they work. An event has a level and a message; the
line of an event is the level followed by the message.
-/

namespace LanguageKit

open Text

/-- How much attention an event deserves. -/
inductive Level where
  /-- Every single step. -/
  | trace
  /-- Landmarks of a run. -/
  | debug
  /-- Something a reader should notice. -/
  | warn
  deriving DecidableEq

/-- The name of a level in a line. -/
def Level.text : Level → String
  | trace => "TRACE"
  | debug => "DEBUG"
  | warn => "WARN"

/-- One recorded event. -/
inductive Event where
  /-- A lexer published an item. -/
  | published (item : Item)
  /-- A lexer published the item of a failure. -/
  | failed (item : Item)
  /-- A lexer was asked to publish behind its final item. -/
  | dropped (token : Token)
  /-- A producer of items began to work. -/
  | producerStarted
  /-- A producer offered an item that nobody was going to take. -/
  | producerRefused
  /-- A producer handed over all its items. -/
  | producerFinished
  /-- A producer that had stopped was waited for. -/
  | producerJoined
  /-- A producer that had crashed was waited for. -/
  | producerCrashed
  /-- A parser consumed an item. -/
  | consumed (item : Item)
  /-- A stack changed its capacity. -/
  | resized (before after live : Nat)
  /-- A machine halted. -/
  | halted (pc steps live : Nat)
  deriving DecidableEq

namespace Event

/-- The level of an event. -/
def level : Event → Level
  | published _ | failed _ | consumed _ => .trace
  | dropped _ | producerStarted | producerFinished | producerJoined | resized .. | halted .. =>
    .debug
  | producerRefused | producerCrashed => .warn

/-- The message of an event. -/
def message : Event → String
  | published item => "lexer: emit " ++ item.token.text ++ " " ++ item.text
  | failed item => "lexer: fail " ++ item.text
  | dropped token => "lexer: dropping " ++ token.text ++ " emitted after the final item"
  | producerStarted => "lexer: producer thread started"
  | producerRefused => "lexer: consumer went away, stopping producer"
  | producerFinished => "lexer: producer thread finished"
  | producerJoined => "lexer: producer thread joined"
  | producerCrashed => "lexer: producer thread panicked"
  | consumed item => "parser: consume " ++ item.token.text ++ " " ++ item.text
  | resized before after live =>
    "stack: resize " ++ natText before ++ " -> " ++ natText after ++ " with " ++
      natText live ++ " live"
  | halted pc steps live =>
    "vm: halted at " ++ addressText pc ++ " after " ++ natText steps ++ " steps, " ++
      natText live ++ " live"

/-- The line of an event. -/
def line (event : Event) : String := event.level.text ++ " " ++ event.message

end Event

end LanguageKit
