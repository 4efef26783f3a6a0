import LanguageKit.Text.Bytes

/-!
# Cursors over a text

A cursor stands between the code points that have been consumed and those that
have not. It holds the last code point it consumed for as long as that one can
be given back, and it remembers the byte offset at which the pending text
starts. Positions count bytes.

Giving a code point back after a new start has been set can leave the start
behind the position; then there is no pending text.
-/

namespace LanguageKit

open Text

/-- A place in a text. -/
structure Cursor where
  /-- The consumed code points, newest first, without the one that is held. -/
  behind : List Char
  /-- The code point that can be given back: the last one consumed, if any. -/
  held : Option Char
  /-- The code points that have not been consumed. -/
  ahead : List Char
  /-- The byte offset at which the pending text starts. -/
  start : Nat
  deriving DecidableEq

namespace Cursor

/-- The cursor in front of a text. -/
def ofText (text : List Char) : Cursor := ⟨[], none, text, 0⟩

/-- All consumed code points, newest first. -/
def consumed (cursor : Cursor) : List Char := cursor.held.toList ++ cursor.behind

/-- The number of bytes consumed. -/
def position (cursor : Cursor) : Nat := byteSize cursor.consumed

/-- The number of bytes that can be given back. -/
def width (cursor : Cursor) : Nat := byteSize cursor.held.toList

/-- The whole text. -/
def text (cursor : Cursor) : List Char := cursor.consumed.reverse ++ cursor.ahead

/-- The text between the start and the position, unless the start lies behind. -/
def pending? (cursor : Cursor) : Option (List Char) :=
  if cursor.start ≤ cursor.position then
    some (takeBytes (cursor.position - cursor.start) cursor.consumed).reverse
  else none

/-- Gives up the chance to give a code point back. -/
def settle (cursor : Cursor) : Cursor :=
  { cursor with behind := cursor.consumed, held := none }

/-- Consumes one code point and holds it. At the end of the text nothing moves. -/
def next (cursor : Cursor) : Option Char × Cursor :=
  match cursor.ahead with
  | [] => (none, cursor.settle)
  | c :: rest => (some c, ⟨cursor.consumed, some c, rest, cursor.start⟩)

/-- Gives the held code point back. Only one can be held, so a second call in a
row does nothing. -/
def backup (cursor : Cursor) : Cursor :=
  match cursor.held with
  | none => cursor
  | some c => { cursor with held := none, ahead := c :: cursor.ahead }

/-- Looks at the next code point: consumes it and gives it back. -/
def peek (cursor : Cursor) : Option Char × Cursor :=
  let (seen, moved) := cursor.next
  (seen, moved.backup)

/-- Consumes the next code point if it passes a test. -/
def acceptIf (cursor : Cursor) (test : Char → Bool) : Bool × Cursor :=
  match cursor.next with
  | (some c, moved) => if test c then (true, moved) else (false, moved.backup)
  | (none, moved) => (false, moved.backup)

/-- A code point is accepted exactly when one more code point has been consumed. -/
theorem acceptIf_length (cursor : Cursor) (test : Char → Bool) :
    (cursor.acceptIf test).2.ahead.length + (cursor.acceptIf test).1.toNat =
      cursor.ahead.length := by
  unfold acceptIf next
  cases h : cursor.ahead with
  | nil => simp [settle, backup, h]
  | cons c rest =>
    dsimp only
    split <;> simp [backup]

/-- Consumes code points for as long as they pass a test that may depend on the
code points it has accepted before, which it is given newest first. Returns how
many were consumed. -/
def acceptWhileFrom (test : List Char → Char → Bool) (accepted : List Char)
    (cursor : Cursor) : Nat × Cursor :=
  match _h : cursor.acceptIf (test accepted) with
  | (false, moved) => (0, moved)
  | (true, moved) =>
    let (count, last) := acceptWhileFrom test (moved.held.toList ++ accepted) moved
    (count + 1, last)
termination_by cursor.ahead.length
decreasing_by
  have := cursor.acceptIf_length (test accepted)
  rw [_h] at this
  simp only [Bool.toNat_true] at this
  omega

/-- Consumes code points for as long as they pass a test. -/
def acceptWhile (cursor : Cursor) (test : List Char → Char → Bool) : Nat × Cursor :=
  acceptWhileFrom test [] cursor

/-- Consumes the next code point if it belongs to a set. -/
def accept (cursor : Cursor) (valid : List Char) : Bool × Cursor :=
  cursor.acceptIf valid.contains

/-- Consumes code points for as long as they belong to a set. -/
def acceptRun (cursor : Cursor) (valid : List Char) : Nat × Cursor :=
  cursor.acceptWhile fun _ => valid.contains

/-- Consumes a number of code points at once, without holding the last. -/
def skip (cursor : Cursor) (count : Nat) : Cursor :=
  { cursor with
    behind := (cursor.ahead.take count).reverse ++ cursor.consumed
    held := none
    ahead := cursor.ahead.drop count }

/-- Consumes a nonempty literal if it comes next. Otherwise nothing changes. -/
def acceptPrefix (cursor : Cursor) (literal : List Char) : Bool × Cursor :=
  if !literal.isEmpty && literal.isPrefixOf cursor.ahead then
    (true, cursor.skip literal.length)
  else (false, cursor)

/-- Starts a new pending text at the position. What is held can still be given
back. -/
def restart (cursor : Cursor) : Cursor := { cursor with start := cursor.position }

/-- Giving up what is held moves nothing. -/
theorem consumed_settle (cursor : Cursor) : cursor.settle.consumed = cursor.consumed := rfl

/-- Giving up what is held keeps the text. -/
theorem text_settle (cursor : Cursor) : cursor.settle.text = cursor.text := rfl

/-- Consuming a code point keeps the text. -/
theorem text_next (cursor : Cursor) : cursor.next.2.text = cursor.text := by
  unfold next
  split
  · exact cursor.text_settle
  · rename_i c rest h
    simp [text, consumed, h]

/-- Giving a code point back keeps the text. -/
theorem text_backup (cursor : Cursor) : cursor.backup.text = cursor.text := by
  unfold backup
  split
  · rfl
  · rename_i c h
    simp [text, consumed, h]

/-- Looking at the next code point keeps the text. -/
theorem text_peek (cursor : Cursor) : cursor.peek.2.text = cursor.text :=
  (text_backup _).trans cursor.text_next

/-- Accepting a code point keeps the text. -/
theorem text_acceptIf (cursor : Cursor) (test : Char → Bool) :
    (cursor.acceptIf test).2.text = cursor.text := by
  have hnext := cursor.text_next
  unfold acceptIf
  split
  · rename_i c moved h
    rw [h] at hnext
    split
    · exact hnext
    · exact (text_backup moved).trans hnext
  · rename_i moved h
    rw [h] at hnext
    exact (text_backup moved).trans hnext

/-- Accepting a run of code points keeps the text. -/
theorem text_acceptWhileFrom (test : List Char → Char → Bool) (accepted : List Char)
    (cursor : Cursor) : (acceptWhileFrom test accepted cursor).2.text = cursor.text := by
  fun_induction acceptWhileFrom test accepted cursor with
  | case1 accepted cursor moved h =>
    have hstep := cursor.text_acceptIf (test accepted)
    rwa [h] at hstep
  | case2 accepted cursor moved h count last hlast ih =>
    have hstep := cursor.text_acceptIf (test accepted)
    rw [h] at hstep
    rw [hlast] at ih
    exact ih.trans hstep

/-- Skipping code points keeps the text. -/
theorem text_skip (cursor : Cursor) (count : Nat) : (cursor.skip count).text = cursor.text := by
  simp [skip, text, consumed]

/-- Accepting a literal keeps the text. -/
theorem text_acceptPrefix (cursor : Cursor) (literal : List Char) :
    (cursor.acceptPrefix literal).2.text = cursor.text := by
  unfold acceptPrefix
  split
  · exact cursor.text_skip literal.length
  · rfl

/-- Giving a code point back moves the position by the width. -/
theorem position_backup (cursor : Cursor) :
    cursor.backup.position + cursor.width = cursor.position := by
  unfold backup
  split
  · rename_i h
    simp [width, h, byteSize]
  · rename_i c h
    simp only [position, consumed, width, h, Option.toList_some, Option.toList_none,
      List.nil_append, byteSize_append]
    exact Nat.add_comm _ _

end Cursor

end LanguageKit
