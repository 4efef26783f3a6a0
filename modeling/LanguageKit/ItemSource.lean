import LanguageKit.Handover

/-!
# Sources of items

A parser reads its items one at a time from a source: a list, a scan that runs
when an item is asked for, or a producer that hands its items over. A source
also tells what it has recorded, so that its events can be put in order with
those of its reader.
-/

namespace LanguageKit

/-- Places that items are read from. -/
class ItemSource (σ : Type) where
  /-- Reads the next item. -/
  read : σ → Pull × σ
  /-- Takes what the source has recorded since the last time. -/
  takeEvents : σ → List Event × σ
  /-- What the source records when nobody will read from it again. -/
  close : σ → List Event

/-- A list of items is read from its front and records nothing. -/
instance : ItemSource (List Item) where
  read
    | [] => (.ended, [])
    | item :: rest => (.item item, rest)
  takeEvents items := ([], items)
  close _ := []

/-- A scan that is run as far as the next item when one is read. -/
structure LazyScan (σ : Type) where
  /-- The scanner that is run. -/
  scanner : Scanner σ
  /-- How many steps may pass before an item comes. -/
  budget : Nat
  /-- The scan so far. -/
  scan : Scan σ

/-- Reading pulls the next item, and the events are those of the lexer. -/
instance {σ : Type} : ItemSource (LazyScan σ) where
  read source :=
    let (pulled, scan) := source.scan.pull source.scanner source.budget
    (pulled, { source with scan })
  takeEvents source :=
    (source.scan.lexer.log.toList,
      { source with
        scan := { source.scan with lexer := { source.scan.lexer with log := #[] } } })
  close _ := []

/-- A scan that runs in a producer. -/
structure ProducedScan (σ : Type) where
  /-- The scanner the producer runs. -/
  scanner : Scanner σ
  /-- How many moves the producer may make before it offers an item. -/
  budget : Nat
  /-- The producer and the reader. -/
  pair : Handover σ

/-- Reading takes the next item the producer offers. The producer keeps its events
until the reader leaves. -/
instance {σ : Type} : ItemSource (ProducedScan σ) where
  read source :=
    let (received, pair) := source.pair.receive source.scanner source.budget
    (match received with
      | some item => .item item
      | none => .ended, { source with pair })
  takeEvents source := ([], source)
  close source := (source.pair.close source.scanner source.budget).events

end LanguageKit
