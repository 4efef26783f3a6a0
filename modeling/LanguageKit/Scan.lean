import LanguageKit.Diagnostic
import LanguageKit.Lexer

/-!
# Scans

A scanner says for every state which action it takes: requests to the lexer, one
after the other, each chosen in view of the answers so far, and at the end the
name of the next state or none. A scan runs a scanner lazily: it takes items from
the queue of its lexer and runs one state whenever the queue is empty. When the
states stop without a final item, the scan closes the sequence itself.

A state is taken out of the scan before it runs. If its action goes wrong the
scan has no state left.
-/

namespace LanguageKit

open Text

/-- What a state does: it ends with the next state, or makes a request and goes on
with the answer. -/
inductive Action (σ : Type) : Type where
  /-- Ends the action. -/
  | stop (next : Option σ)
  /-- Makes a request. -/
  | ask (request : Lexer.Request) (resume : request.Reply → Action σ)

/-- Carries out an action. The lexer is returned also when a request goes wrong. -/
def Action.run {σ : Type} : Action σ → Lexer → Except CutError (Option σ) × Lexer
  | stop next, lexer => (.ok next, lexer)
  | ask request resume, lexer =>
    match lexer.perform request with
    | .ok (reply, moved) => (resume reply).run moved
    | .error cut => (.error cut, lexer)

/-- The action of every state. -/
abbrev Scanner (σ : Type) : Type := σ → Action σ

/-- A scan in progress. -/
structure Scan (σ : Type) where
  /-- The lexer. -/
  lexer : Lexer
  /-- The state to run next. -/
  state : Option σ
  /-- The states that have been run, oldest first. -/
  ran : Array σ

/-- What a part of a scan brings. -/
inductive Scan.Advance where
  /-- An item was taken from the queue. -/
  | item (item : Item)
  /-- A state was run, or the sequence was closed. -/
  | worked
  /-- The sequence is over. -/
  | ended
  /-- A request went wrong. -/
  | crashed (cut : CutError)
  deriving DecidableEq

/-- What a pull brings. -/
inductive Pull where
  /-- The next item of the sequence. -/
  | item (item : Item)
  /-- The sequence is over. -/
  | ended
  /-- A request went wrong. -/
  | crashed (cut : CutError)
  /-- The states that were run did not bring an item. -/
  | exhausted
  deriving DecidableEq

namespace Scan

variable {σ : Type}

/-- A scan of a lexer that begins in a state. -/
def ofLexer (lexer : Lexer) (state : σ) : Scan σ := ⟨lexer, some state, #[]⟩

/-- A scan of a text that begins in a state. -/
def ofText (text : String) (state : σ) : Scan σ := ofLexer (Lexer.ofText text) state

/-- Closes the sequence after the states have stopped. -/
def close (scan : Scan σ) : Except CutError Unit × Scan σ :=
  match scan.lexer.emit .endOfInput with
  | .ok lexer => (.ok (), { scan with lexer, state := none })
  | .error cut => (.error cut, { scan with state := none })

/-- Runs the next state, or closes the sequence when there is none. -/
def step (scanner : Scanner σ) (scan : Scan σ) : Except CutError Unit × Scan σ :=
  match scan.state with
  | none => scan.close
  | some state =>
    if scan.lexer.finished then scan.close
    else
      match (scanner state).run scan.lexer with
      | (.ok next, lexer) =>
        (.ok (), ⟨lexer, if lexer.finished then none else next, scan.ran.push state⟩)
      | (.error cut, lexer) => (.error cut, ⟨lexer, none, scan.ran.push state⟩)

/-- The smallest part of a scan: takes an item from the queue if there is one, and
otherwise makes one step unless the sequence is over. -/
def advance (scanner : Scanner σ) (scan : Scan σ) : Advance × Scan σ :=
  match scan.lexer.queue with
  | item :: rest => (.item item, { scan with lexer := { scan.lexer with queue := rest } })
  | [] =>
    if scan.lexer.finished then (.ended, scan)
    else
      match scan.step scanner with
      | (.ok (), next) => (.worked, next)
      | (.error cut, next) => (.crashed cut, next)

/-- Pulls the next item. A budget bounds the number of steps. -/
def pull (scanner : Scanner σ) : Nat → Scan σ → Pull × Scan σ
  | 0, scan => (.exhausted, scan)
  | budget + 1, scan =>
    match scan.advance scanner with
    | (.item item, next) => (.item item, next)
    | (.ended, next) => (.ended, next)
    | (.crashed cut, next) => (.crashed cut, next)
    | (.worked, next) => pull scanner budget next

/-- What the scan of a whole text brings. -/
inductive Outcome where
  /-- All items of the sequence, the one at the end included. -/
  | items (items : List Item)
  /-- The scan failed. -/
  | failed (report : Diagnostic)
  /-- A request went wrong. -/
  | crashed (cut : CutError)
  /-- The budget did not suffice. -/
  | exhausted

/-- Goes on to the end of the sequence and adds its items to those before. The
first failure ends the collection. -/
def collect (scanner : Scanner σ) : Nat → Array Item → Scan σ → Outcome × Scan σ
  | 0, _, scan => (.exhausted, scan)
  | budget + 1, items, scan =>
    match scan.advance scanner with
    | (.item item, next) =>
      if item.isFailure then (.failed (.ofFailure item), next)
      else collect scanner budget (items.push item) next
    | (.ended, next) => (.items items.toList, next)
    | (.crashed cut, next) => (.crashed cut, next)
    | (.worked, next) => collect scanner budget items next

/-- Scans a whole text. -/
def ofWholeText (scanner : Scanner σ) (budget : Nat) (text : String) (state : σ) :
    Outcome × Scan σ :=
  collect scanner budget #[] (ofText text state)

/-- The full form shows the lexer. -/
instance : FullForm (Scan σ) :=
  ⟨fun scan => recordForm "Items" [("lexer", fullForm scan.lexer)]⟩

end Scan

end LanguageKit
