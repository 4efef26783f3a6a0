import LanguageKit.Scan

/-!
# Handing items over

A producer runs a scan and offers its items one at a time; a consumer takes
them. An offer is either taken, which lets the producer work on, or refused
because the consumer has left, which stops the producer. So the producer is never
more than one item ahead. A consumer that leaves waits for the producer to stop.

The moves of the two sides are separate functions, each defined only where the
move is possible; any order of possible moves is a behaviour of the pair. The
operations for a consumer are made of these moves.
-/

namespace LanguageKit

/-- What the producer is doing. -/
inductive Producer where
  /-- It runs the scan. -/
  | working
  /-- It waits for an item to be taken. -/
  | offering (item : Item)
  /-- It has stopped. -/
  | stopped
  /-- It has stopped because a request of the scan went wrong. -/
  | crashed (cut : CutError)
  deriving DecidableEq

/-- Whether the producer has stopped, in whatever way. -/
def Producer.isGone : Producer → Bool
  | stopped | crashed _ => true
  | working | offering _ => false

/-- What the consumer is doing. -/
inductive Consumer where
  /-- It may take items. -/
  | reading
  /-- It takes no more items and waits for the producer to stop. -/
  | leaving
  /-- It has seen the producer stop. -/
  | joined
  deriving DecidableEq

/-- A producer and a consumer of the items of a scan. -/
structure Handover (σ : Type) where
  /-- The scan the producer runs. -/
  scan : Scan σ
  /-- The producer. -/
  producer : Producer
  /-- The consumer. -/
  consumer : Consumer
  /-- The items taken so far, oldest first. -/
  received : Array Item
  /-- What the two sides have recorded, oldest first. -/
  log : Array Event

namespace Handover

variable {σ : Type}

/-- A producer that is about to run a scan, and a consumer that may read. -/
def start (scan : Scan σ) : Handover σ := ⟨scan, .working, .reading, #[], #[.producerStarted]⟩

/-- The producer does the smallest part of its work. -/
def work? (scanner : Scanner σ) (pair : Handover σ) : Option (Handover σ) :=
  match pair.producer with
  | .working =>
    match pair.scan.advance scanner with
    | (.item item, scan) => some { pair with scan, producer := .offering item }
    | (.worked, scan) => some { pair with scan }
    | (.ended, scan) =>
      some { pair with scan, producer := .stopped, log := pair.log.push .producerFinished }
    | (.crashed cut, scan) => some { pair with scan, producer := .crashed cut }
  | _ => none

/-- The consumer takes the item that is offered. -/
def take? (pair : Handover σ) : Option (Item × Handover σ) :=
  match pair.producer, pair.consumer with
  | .offering item, .reading =>
    some (item, { pair with producer := .working, received := pair.received.push item })
  | _, _ => none

/-- The producer finds that nobody will take its item. -/
def refuse? (pair : Handover σ) : Option (Handover σ) :=
  match pair.producer, pair.consumer with
  | .offering _, .leaving =>
    some { pair with producer := .stopped, log := pair.log.push .producerRefused }
  | _, _ => none

/-- The consumer decides to take no more items. -/
def leave? (pair : Handover σ) : Option (Handover σ) :=
  match pair.consumer with
  | .reading => some { pair with consumer := .leaving }
  | _ => none

/-- The consumer sees that the producer has stopped. -/
def join? (pair : Handover σ) : Option (Handover σ) :=
  match pair.producer, pair.consumer with
  | .stopped, .leaving =>
    some { pair with consumer := .joined, log := pair.log.push .producerJoined }
  | .crashed _, .leaving =>
    some { pair with consumer := .joined, log := pair.log.push .producerCrashed }
  | _, _ => none

/-- Lets the producer work until it offers an item or has stopped, for at most a
number of moves. -/
def settle (scanner : Scanner σ) : Nat → Handover σ → Handover σ
  | 0, pair => pair
  | budget + 1, pair =>
    match pair.work? scanner with
    | some next => settle scanner budget next
    | none => pair

/-- Waits for an item and takes it. There is none when the producer has stopped. -/
def receive (scanner : Scanner σ) (budget : Nat) (pair : Handover σ) :
    Option Item × Handover σ :=
  let ready := pair.settle scanner budget
  match ready.take? with
  | some (item, next) => (some item, next)
  | none => (none, ready)

/-- Takes items until there are none or a number of them has been taken. -/
def receiveUpTo (scanner : Scanner σ) (budget : Nat) : Nat → Handover σ → Handover σ
  | 0, pair => pair
  | count + 1, pair =>
    match pair.receive scanner budget with
    | (some _, next) => receiveUpTo scanner budget count next
    | (none, next) => next

/-- The consumer leaves and waits for the producer, which refuses its next item
if it has one. -/
def close (scanner : Scanner σ) (budget : Nat) (pair : Handover σ) : Handover σ :=
  let left := pair.leave?.getD pair
  let ready := left.settle scanner budget
  let stopped := ready.refuse?.getD ready
  stopped.join?.getD stopped

/-- Everything recorded by the scan and by the two sides. The order between the
two parts is not fixed. -/
def events (pair : Handover σ) : List Event := pair.scan.lexer.log.toList ++ pair.log.toList

end Handover

end LanguageKit
