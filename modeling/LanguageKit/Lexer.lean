import LanguageKit.Cursor
import LanguageKit.Event

/-!
# Lexers

A lexer is a cursor with a queue of the items that have been published. The
caller decides what a token is: requests move the cursor and publish the pending
text under a token. The first item that ends a sequence finishes the lexer, and
nothing is published behind it.

Requests are data, so that the work of a scanner can be described before it is
carried out. The only request that can go wrong is one for a pending text that
starts behind its end.
-/

namespace LanguageKit

open Text

/-- The pending text cannot be cut out, because it starts behind its end. -/
structure CutError where
  /-- Where the text starts. -/
  start : Nat
  /-- Where it ends. -/
  stop : Nat
  deriving DecidableEq

/-- A cursor that publishes items. -/
structure Lexer where
  /-- The place in the text. -/
  cursor : Cursor
  /-- The items that have been published and not been taken, oldest first. -/
  queue : List Item
  /-- Whether an item that ends the sequence has been published. -/
  finished : Bool
  /-- What has been recorded, oldest first. -/
  log : Array Event

namespace Lexer

/-- The lexer in front of a text. -/
def ofText (text : String) : Lexer := ⟨Cursor.ofText text.toList, [], false, #[]⟩

/-- The span of the pending text. -/
def span (lexer : Lexer) : Span := ⟨lexer.cursor.start, lexer.cursor.position⟩

/-- The pending text. -/
def pending (lexer : Lexer) : Except CutError String :=
  match lexer.cursor.pending? with
  | some text => .ok (String.ofList text)
  | none => .error ⟨lexer.cursor.start, lexer.cursor.position⟩

/-- Adds an item to the queue. -/
def enqueue (lexer : Lexer) (item : Item) (event : Event) : Lexer :=
  { lexer with
    queue := lexer.queue ++ [item]
    finished := item.token.isTerminal
    log := lexer.log.push event }

/-- Publishes the pending text under a token and starts a new one. A finished
lexer publishes nothing. -/
def emit (lexer : Lexer) (token : Token) : Except CutError Lexer :=
  if lexer.finished then .ok { lexer with log := lexer.log.push (.dropped token) }
  else
    match lexer.pending with
    | .error cut => .error cut
    | .ok lexeme =>
      let item : Item := ⟨token, lexeme, lexer.span⟩
      let published := lexer.enqueue item (.published item)
      .ok { published with cursor := published.cursor.restart }

/-- Publishes a failure with the span of the pending text, and so finishes the
lexer. A finished lexer is left alone. -/
def fail (lexer : Lexer) (message : String) : Lexer :=
  if lexer.finished then lexer
  else
    let item := Item.failed message lexer.span
    lexer.enqueue item (.failed item)

/-- The full form shows the cursor, the length of the queue and the end mark. -/
instance : FullForm Lexer :=
  ⟨fun lexer => recordForm "Lexer"
    [("start", fullForm lexer.cursor.start), ("position", fullForm lexer.cursor.position),
      ("width", fullForm lexer.cursor.width), ("pending", fullForm lexer.queue.length),
      ("finished", fullForm lexer.finished)]⟩

/-- What a lexer can be asked to do. -/
inductive Request where
  /-- Consume one code point. -/
  | next
  /-- Give the last code point back. -/
  | backup
  /-- Look at the next code point. -/
  | peek
  /-- Consume the next code point if it belongs to a set. -/
  | accept (valid : String)
  /-- Consume code points for as long as they belong to a set. -/
  | acceptRun (valid : String)
  /-- Consume the next code point if it passes a test. -/
  | acceptIf (test : Char → Bool)
  /-- Consume code points for as long as they pass a test, which sees what it has
  accepted before, newest first. -/
  | acceptWhile (test : List Char → Char → Bool)
  /-- Consume a literal if it comes next. -/
  | acceptPrefix (literal : String)
  /-- Publish the pending text under a token. -/
  | emit (token : Token)
  /-- Drop the pending text. -/
  | ignore
  /-- Publish a failure. -/
  | fail (message : String)
  /-- Show the text ahead. -/
  | remainingInput
  /-- Show the whole text. -/
  | input
  /-- Show where the pending text starts. -/
  | start
  /-- Show where the cursor stands. -/
  | position
  /-- Show the pending text. -/
  | pending
  /-- Show the full form of the lexer. -/
  | inspect

/-- What the answer to a request is. -/
@[reducible] def Request.Reply : Request → Type
  | next | peek => Option Char
  | accept _ | acceptIf _ | acceptPrefix _ => Bool
  | acceptRun _ | acceptWhile _ | start | position => Nat
  | remainingInput | input | pending | inspect => String
  | backup | emit _ | ignore | fail _ => Unit

/-- Replaces the cursor by the one a move returns beside its answer. -/
def moveTo {α : Type} (lexer : Lexer) (move : α × Cursor) : α × Lexer :=
  (move.1, { lexer with cursor := move.2 })

/-- Carries out a request. When it goes wrong the lexer stays as it was. -/
def perform (lexer : Lexer) : (request : Request) → Except CutError (request.Reply × Lexer)
  | .next => .ok (lexer.moveTo lexer.cursor.next)
  | .backup => .ok (lexer.moveTo ((), lexer.cursor.backup))
  | .peek => .ok (lexer.moveTo lexer.cursor.peek)
  | .accept valid => .ok (lexer.moveTo (lexer.cursor.accept valid.toList))
  | .acceptRun valid => .ok (lexer.moveTo (lexer.cursor.acceptRun valid.toList))
  | .acceptIf test => .ok (lexer.moveTo (lexer.cursor.acceptIf test))
  | .acceptWhile test => .ok (lexer.moveTo (lexer.cursor.acceptWhile test))
  | .acceptPrefix literal => .ok (lexer.moveTo (lexer.cursor.acceptPrefix literal.toList))
  | .emit token => (lexer.emit token).map fun published => ((), published)
  | .ignore => .ok (lexer.moveTo ((), lexer.cursor.restart))
  | .fail message => .ok ((), lexer.fail message)
  | .remainingInput => .ok (String.ofList lexer.cursor.ahead, lexer)
  | .input => .ok (String.ofList lexer.cursor.text, lexer)
  | .start => .ok (lexer.cursor.start, lexer)
  | .position => .ok (lexer.cursor.position, lexer)
  | .pending => lexer.pending.map fun text => (text, lexer)
  | .inspect => .ok (fullForm lexer, lexer)

end Lexer

end LanguageKit
