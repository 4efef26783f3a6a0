import LanguageKit.Lexer

/-!
# The order of start and position

The pending text of a lexer begins at its start and ends at its position, so the
start has to lie before the position and the position inside the text. All
requests keep this order but one: a code point can be given back after the
pending text has been restarted behind it, and then the position falls in front
of the start. A run of requests keeps the order exactly when it never does that.
-/

namespace LanguageKit

open Text

namespace Cursor

/-- A cursor that went forward: its start is where it was, and the code point it
can give back was consumed on the way. -/
structure Forward (before after : Cursor) : Prop where
  /-- The pending text still starts at the same place. -/
  start : after.start = before.start
  /-- Giving back does not lead behind the place the cursor came from. -/
  position : before.position + after.width ≤ after.position

/-- Going forward twice is going forward. -/
theorem Forward.trans {first second third : Cursor} (h : first.Forward second)
    (h' : second.Forward third) : first.Forward third := by
  have hposition := h.position
  have hposition' := h'.position
  exact ⟨h'.start.trans h.start, by omega⟩

/-- Nothing can be given back after the code point has been given back. -/
theorem width_backup (cursor : Cursor) : cursor.backup.width = 0 := by
  unfold backup
  split
  · rename_i h
    simp [width, h, byteSize]
  · rfl

/-- Giving a code point back leaves the start alone. -/
theorem start_backup (cursor : Cursor) : cursor.backup.start = cursor.start := by
  unfold backup
  split <;> rfl

/-- A consumed code point counts from the old position to the new one. -/
theorem forward_next (cursor : Cursor) :
    cursor.Forward cursor.next.2 ∧
      cursor.next.2.position = cursor.position + cursor.next.2.width := by
  have hposition : cursor.next.2.position = cursor.position + cursor.next.2.width := by
    unfold next
    split
    · simp [settle, position, consumed, width, byteSize]
    · simp [position, consumed, width, byteSize, Nat.add_comm]
  have hstart : cursor.next.2.start = cursor.start := by
    unfold next
    split <;> rfl
  exact ⟨⟨hstart, Nat.le_of_eq hposition.symm⟩, hposition⟩

/-- A code point that is consumed and given back leaves the position where it was. -/
theorem forward_backup_next (cursor : Cursor) : cursor.Forward cursor.next.2.backup := by
  obtain ⟨hforward, hposition⟩ := cursor.forward_next
  have hback := cursor.next.2.position_backup
  refine ⟨(start_backup _).trans hforward.start, ?_⟩
  rw [width_backup]
  omega

/-- Looking at the next code point goes forward by nothing. -/
theorem forward_peek (cursor : Cursor) : cursor.Forward cursor.peek.2 :=
  cursor.forward_backup_next

/-- Accepting a code point goes forward, also when it is refused. -/
theorem forward_acceptIf (cursor : Cursor) (test : Char → Bool) :
    cursor.Forward (cursor.acceptIf test).2 := by
  have hnext := cursor.forward_next.1
  have hback := cursor.forward_backup_next
  unfold acceptIf
  split
  · rename_i c moved h
    rw [h] at hnext hback
    split
    · exact hnext
    · exact hback
  · rename_i moved h
    rw [h] at hback
    exact hback

/-- Accepting a run of code points goes forward. -/
theorem forward_acceptWhileFrom (test : List Char → Char → Bool) (accepted : List Char)
    (cursor : Cursor) : cursor.Forward (acceptWhileFrom test accepted cursor).2 := by
  fun_induction acceptWhileFrom test accepted cursor with
  | case1 accepted cursor moved h =>
    have hstep := cursor.forward_acceptIf (test accepted)
    rwa [h] at hstep
  | case2 accepted cursor moved h count last hlast ih =>
    have hstep := cursor.forward_acceptIf (test accepted)
    rw [h] at hstep
    rw [hlast] at ih
    exact hstep.trans ih

/-- A literal that is accepted goes forward; one that is not changes nothing. -/
theorem forward_acceptPrefix (cursor : Cursor) (literal : List Char) :
    ((cursor.acceptPrefix literal).1 = true → cursor.Forward (cursor.acceptPrefix literal).2) ∧
      ((cursor.acceptPrefix literal).1 = false → (cursor.acceptPrefix literal).2 = cursor) := by
  unfold acceptPrefix
  split
  · refine ⟨fun _ => ⟨rfl, ?_⟩, by simp⟩
    simp [skip, position, consumed, width, byteSize, byteSize_append]
  · exact ⟨by simp, fun _ => rfl⟩

/-- The position lies inside the text. -/
theorem position_le_byteSize_text (cursor : Cursor) :
    cursor.position ≤ byteSize cursor.text := by
  rw [text, byteSize_append, byteSize_reverse]
  exact Nat.le_add_right _ _

end Cursor

namespace Lexer

/-- The lexer after a request. A request that goes wrong leaves it as it was. -/
def serve (lexer : Lexer) (request : Request) : Lexer :=
  match lexer.perform request with
  | .ok (_, moved) => moved
  | .error _ => lexer

/-- The lexer after requests, one after the other. -/
def serveAll (lexer : Lexer) (requests : List Request) : Lexer := requests.foldl serve lexer

/-- The start, the position and the end of the text are in order, and so are the
spans of all items in the queue. -/
structure Ordered (lexer : Lexer) (size : Nat) : Prop where
  /-- The start does not lie behind the position. -/
  start_le : lexer.cursor.start ≤ lexer.cursor.position
  /-- The position does not lie behind the end of the text. -/
  position_le : lexer.cursor.position ≤ size
  /-- No item has a span that is reversed or leads out of the text. -/
  spans : ∀ item ∈ lexer.queue, item.span.start ≤ item.span.stop ∧ item.span.stop ≤ size

/-- Whether a request starts a new pending text: dropping it does, and publishing
it unless the lexer is finished. -/
def restarts (lexer : Lexer) : Request → Bool
  | .ignore => true
  | .emit _ => !lexer.finished
  | _ => false

/-- Whether a request decides anew which code point can be given back. -/
def moves (lexer : Lexer) : Request → Bool
  | .next | .backup | .peek | .accept _ | .acceptRun _ | .acceptIf _ | .acceptWhile _ => true
  | .acceptPrefix literal => (lexer.cursor.acceptPrefix literal.toList).1
  | _ => false

/-- Whether the pending text has been restarted since it was last decided which
code point can be given back, after one more request. -/
def restartedBy (lexer : Lexer) (restarted : Bool) (request : Request) : Bool :=
  if lexer.restarts request then true
  else if lexer.moves request then false
  else restarted

/-- Some request among those to come gives back a code point that was consumed
before the pending text was restarted. -/
def Overreaches : Lexer → Bool → List Request → Prop
  | _, _, [] => False
  | lexer, restarted, request :: rest =>
    (request = .backup ∧ restarted = true ∧ lexer.cursor.held.isSome = true) ∨
      Overreaches (lexer.serve request) (lexer.restartedBy restarted request) rest

/-- An ordered lexer, together with what the requests so far say about the place
of the start: without a restart it is not behind the code point that can be given
back, and after a restart it is at the position. -/
structure Tracked (lexer : Lexer) (size : Nat) (restarted : Bool) : Prop
    extends Ordered lexer size where
  /-- The text is the one the lexer began with. -/
  text_size : byteSize lexer.cursor.text = size
  /-- What can be given back is part of the pending text. -/
  pending : restarted = false → lexer.cursor.start + lexer.cursor.width ≤ lexer.cursor.position
  /-- The pending text is empty. -/
  empty : restarted = true → lexer.cursor.start = lexer.cursor.position

variable {lexer : Lexer} {size : Nat} {restarted : Bool}

/-- A lexer whose cursor went forward is ordered as before. -/
theorem Tracked.forward (h : lexer.Tracked size restarted) {cursor : Cursor}
    (hforward : lexer.cursor.Forward cursor) (htext : cursor.text = lexer.cursor.text) :
    Tracked { lexer with cursor } size false := by
  have hstart := hforward.start
  have hposition := hforward.position
  have hle := h.start_le
  have hinside := cursor.position_le_byteSize_text
  rw [htext, h.text_size] at hinside
  exact
    { start_le := by dsimp only; omega
      position_le := hinside
      spans := h.spans
      text_size := by dsimp only; rw [htext, h.text_size]
      pending := fun _ => by dsimp only; omega
      empty := by simp }

/-- Giving back what is part of the pending text keeps the order. -/
theorem Tracked.backup (h : lexer.Tracked size restarted)
    (hheld : ¬ (restarted = true ∧ lexer.cursor.held.isSome = true)) :
    Tracked { lexer with cursor := lexer.cursor.backup } size false := by
  have hback := lexer.cursor.position_backup
  have hstart := lexer.cursor.start_backup
  have hwidth := lexer.cursor.width_backup
  have hinside := h.position_le
  have hle : lexer.cursor.start + lexer.cursor.width ≤ lexer.cursor.position := by
    cases restarted with
    | false => exact h.pending rfl
    | true =>
      have hnone : lexer.cursor.held = none := by simpa using hheld
      have hzero : lexer.cursor.width = 0 := by simp [Cursor.width, hnone, byteSize]
      have := h.start_le
      omega
  exact
    { start_le := by dsimp only; omega
      position_le := by dsimp only; omega
      spans := h.spans
      text_size := (congrArg byteSize lexer.cursor.text_backup).trans h.text_size
      pending := fun _ => by dsimp only; omega
      empty := by simp }

/-- Restarting the pending text keeps the order. -/
theorem Tracked.restart (h : lexer.Tracked size restarted) :
    Tracked { lexer with cursor := lexer.cursor.restart } size true :=
  { start_le := Nat.le_refl _
    position_le := h.position_le
    spans := h.spans
    text_size := h.text_size
    pending := by simp
    empty := fun _ => rfl }

/-- What is recorded does not matter, and an item with the span of the pending
text can be queued. -/
theorem Tracked.enqueue (h : lexer.Tracked size restarted) {item : Item} (event : Event)
    (hspan : item.span = lexer.span) : (lexer.enqueue item event).Tracked size restarted :=
  { h with
    spans := by
      intro other hother
      rcases List.mem_append.mp hother with hother | hother
      · exact h.spans other hother
      · rw [List.mem_singleton.mp hother, hspan]
        exact ⟨h.start_le, h.position_le⟩ }

/-- The pending text of an ordered lexer can be cut out. -/
theorem exists_pending (h : lexer.cursor.start ≤ lexer.cursor.position) :
    ∃ text, lexer.pending = .ok text := by
  unfold Lexer.pending Cursor.pending?
  rw [if_pos h]
  exact ⟨_, rfl⟩

/-- The pending text of an ordered lexer can be published. -/
theorem exists_emit (h : lexer.cursor.start ≤ lexer.cursor.position) (token : Token) :
    ∃ published, lexer.emit token = .ok published := by
  obtain ⟨text, htext⟩ := exists_pending h
  unfold emit
  split
  · exact ⟨_, rfl⟩
  · rw [htext]
    exact ⟨_, rfl⟩

/-- Publishing keeps the order, and restarts the pending text unless the lexer is
finished. -/
theorem Tracked.emit (h : lexer.Tracked size restarted) (token : Token) :
    (lexer.serve (.emit token)).Tracked size (lexer.finished.not || restarted) := by
  obtain ⟨text, htext⟩ := exists_pending h.start_le
  unfold serve perform Lexer.emit
  cases hfinished : lexer.finished with
  | true => exact { h with }
  | false =>
    simp only [Bool.false_eq_true, if_false, htext]
    exact (h.enqueue (.published ⟨token, text, lexer.span⟩) rfl).restart

/-- A request that gives nothing back from in front of the pending text keeps the
order. -/
theorem Tracked.serve (h : lexer.Tracked size restarted) (request : Request)
    (hbackup : ¬ (request = .backup ∧ restarted = true ∧ lexer.cursor.held.isSome = true)) :
    (lexer.serve request).Tracked size (lexer.restartedBy restarted request) := by
  cases request with
  | next => exact h.forward lexer.cursor.forward_next.1 lexer.cursor.text_next
  | backup => exact h.backup fun hheld => hbackup ⟨rfl, hheld⟩
  | peek => exact h.forward lexer.cursor.forward_peek lexer.cursor.text_peek
  | accept valid =>
    exact h.forward (lexer.cursor.forward_acceptIf _) (lexer.cursor.text_acceptIf _)
  | acceptRun valid =>
    exact h.forward (lexer.cursor.forward_acceptWhileFrom _ [])
      (Cursor.text_acceptWhileFrom _ [] lexer.cursor)
  | acceptIf test =>
    exact h.forward (lexer.cursor.forward_acceptIf test) (lexer.cursor.text_acceptIf test)
  | acceptWhile test =>
    exact h.forward (lexer.cursor.forward_acceptWhileFrom test [])
      (Cursor.text_acceptWhileFrom test [] lexer.cursor)
  | acceptPrefix literal =>
    obtain ⟨haccepted, hrefused⟩ := lexer.cursor.forward_acceptPrefix literal.toList
    have htext := lexer.cursor.text_acceptPrefix literal.toList
    cases hanswer : (lexer.cursor.acceptPrefix literal.toList).1 with
    | true =>
      simp only [restartedBy, restarts, moves, hanswer, Bool.false_eq_true, if_false, if_true]
      exact h.forward (haccepted hanswer) htext
    | false =>
      simp only [restartedBy, restarts, moves, hanswer, Bool.false_eq_true, if_false]
      simp only [Lexer.serve, perform, moveTo, hrefused hanswer]
      exact h
  | emit token =>
    have hemit := h.emit token
    cases hfinished : lexer.finished <;>
      simpa [restartedBy, restarts, moves, hfinished] using hemit
  | ignore => exact h.restart
  | fail message =>
    change (lexer.fail message).Tracked size restarted
    unfold fail
    split
    · exact h
    · exact h.enqueue _ rfl
  | remainingInput => exact h
  | input => exact h
  | start => exact h
  | position => exact h
  | pending =>
    obtain ⟨text, htext⟩ := exists_pending h.start_le
    simp only [Lexer.serve, perform, htext]
    exact h
  | inspect => exact h

/-- A code point that is given back from in front of the pending text leads the
position in front of the start. -/
theorem Tracked.position_lt_start_backup (h : lexer.Tracked size true)
    (hheld : lexer.cursor.held.isSome = true) :
    (lexer.serve .backup).cursor.position < (lexer.serve .backup).cursor.start := by
  have hstart : (lexer.serve .backup).cursor.start = lexer.cursor.start :=
    lexer.cursor.start_backup
  have hback : (lexer.serve .backup).cursor.position + lexer.cursor.width =
      lexer.cursor.position := lexer.cursor.position_backup
  have hempty := h.empty rfl
  have hpos : 0 < lexer.cursor.width := by
    obtain ⟨c, hc⟩ := Option.isSome_iff_exists.mp hheld
    have := c.utf8Size_pos
    simp [Cursor.width, hc, byteSize, this]
  omega

/-- The order is lost then. -/
theorem Tracked.not_ordered_backup (h : lexer.Tracked size true)
    (hheld : lexer.cursor.held.isSome = true) : ¬ (lexer.serve .backup).Ordered size :=
  fun hordered => Nat.not_le_of_lt (h.position_lt_start_backup hheld) hordered.start_le

/-- A run keeps the order at all its moments exactly when it never gives back a
code point from in front of the pending text. -/
theorem Tracked.serveAll_iff (h : lexer.Tracked size restarted) (requests : List Request) :
    (∀ before, before <+: requests → (lexer.serveAll before).Ordered size) ↔
      ¬ lexer.Overreaches restarted requests := by
  induction requests generalizing lexer restarted with
  | nil =>
    constructor
    · intro _ hnever
      exact hnever
    · intro _ before hbefore
      rw [List.prefix_nil.mp hbefore]
      exact h.toOrdered
  | cons request rest ih =>
    by_cases hnow : request = .backup ∧ restarted = true ∧ lexer.cursor.held.isSome = true
    · obtain ⟨rfl, rfl, hheld⟩ := hnow
      have hfirst : [Request.backup] <+: .backup :: rest := ⟨rest, rfl⟩
      constructor
      · intro hordered
        exact absurd (hordered _ hfirst) (h.not_ordered_backup hheld)
      · intro hnot
        exact absurd (Or.inl ⟨rfl, rfl, hheld⟩) hnot
    · have hnext := ih (h.serve request hnow)
      have hrest : lexer.Overreaches restarted (request :: rest) ↔
          (lexer.serve request).Overreaches (lexer.restartedBy restarted request) rest := by
        simp only [Overreaches, hnow, false_or]
      rw [hrest, ← hnext]
      constructor
      · intro hordered before hbefore
        exact hordered (request :: before) ((List.prefix_cons_inj request).mpr hbefore)
      · intro hordered before hbefore
        cases before with
        | nil => exact h.toOrdered
        | cons first before =>
          obtain ⟨rfl, htail⟩ := List.cons_prefix_cons.mp hbefore
          exact hordered before htail

/-- A lexer in front of a text is ordered, and nothing has been restarted. -/
theorem tracked_ofText (text : String) :
    (Lexer.ofText text).Tracked text.utf8ByteSize false :=
  { start_le := Nat.le_refl 0
    position_le := Nat.zero_le _
    spans := by simp [Lexer.ofText]
    text_size := byteSize_toList text
    pending := fun _ => Nat.le_refl 0
    empty := by simp }

/-- From the beginning of any text on, and with any requests, the start, the
position and the end of the text stay in order, the pending text can always be
shown and published, and all published spans are in order, exactly when no
request gives back a code point that was consumed before the pending text was
restarted. -/
theorem ordered_iff_not_overreaches (text : String) (requests : List Request) :
    (∀ before, before <+: requests →
      ((Lexer.ofText text).serveAll before).Ordered text.utf8ByteSize ∧
        (∃ pending, ((Lexer.ofText text).serveAll before).pending = .ok pending) ∧
        ∀ token, ∃ published, ((Lexer.ofText text).serveAll before).emit token = .ok published) ↔
      ¬ (Lexer.ofText text).Overreaches false requests := by
  rw [← (tracked_ofText text).serveAll_iff requests]
  constructor
  · intro h before hbefore
    exact (h before hbefore).1
  · intro h before hbefore
    have hordered := h before hbefore
    exact ⟨hordered, exists_pending hordered.start_le, exists_emit hordered.start_le⟩

/-- Dropping the pending text and then giving its last code point back leaves the
start behind the position, and the pending text cannot be cut out. -/
theorem not_ordered_after_ignore_backup :
    ¬ ((Lexer.ofText "a").serveAll [.next, .ignore, .backup]).Ordered "a".utf8ByteSize ∧
      ((Lexer.ofText "a").serveAll [.next, .ignore, .backup]).pending =
        .error ⟨1, 0⟩ := by
  constructor
  · intro h
    exact absurd h.start_le (by decide)
  · rfl

end Lexer

end LanguageKit
