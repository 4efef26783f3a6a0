import LanguageKit.Proofs.Boundaries

/-!
# Accepting as much as possible

A run of accepted code points is as long as it can be. It ends at the first code point that
is refused or at the end of the text, and the test is asked about each accepted code point
once, in their order, and about the one that is refused. So a test that changes its mind
decides where the run ends by its successive answers and by nothing else.

A literal is accepted if it comes next, and then the lexer stands where it stands behind the
code points of the literal, accepted one by one.
-/

namespace LanguageKit

open Text

namespace Judge

variable {σ : Type}

/-- The same judge, who also records the questions, oldest first. -/
def recording (judge : Judge σ) : Judge (σ × List Char) :=
  ⟨fun (state, asked) c => ((judge.ask state c).1, (judge.ask state c).2, asked ++ [c])⟩

/-- Recording changes no answer. -/
theorem longest_recording (judge : Judge σ) (state : σ) (asked text : List Char) :
    judge.recording.longest (state, asked) text = judge.longest state text := by
  induction text generalizing state asked with
  | nil => rfl
  | cons c rest ih =>
    have hsame : (judge.recording.ask (state, asked) c).1 = (judge.ask state c).1 := rfl
    cases h : (judge.ask state c).1 with
    | true =>
      rw [longest_of_yes (hsame.trans h), longest_of_yes h]
      exact congrArg (c :: ·) (ih _ _)
    | false => rw [longest_of_no (hsame.trans h), longest_of_no h]

/-- The record is the questions, behind those that were recorded before. -/
theorem after_recording (judge : Judge σ) (state : σ) (asked questions : List Char) :
    judge.recording.after (state, asked) questions =
      (judge.after state questions, asked ++ questions) := by
  induction questions generalizing state asked with
  | nil => exact Prod.ext rfl (List.append_nil asked).symm
  | cons c rest ih =>
    have hrest := ih (judge.ask state c).2 (asked ++ [c])
    rw [List.append_assoc] at hrest
    exact hrest

end Judge

namespace Lexer

variable {σ : Type}

/-- A run accepts a beginning of the text ahead of a lexer and leaves the rest, and the lexer
moves behind it. -/
structure Munches (lexer : Lexer) (judge : Judge σ) (state : σ) (taken rest : List Char)
    (moved : Lexer) : Prop where
  /-- What is accepted and the rest are the text ahead. -/
  ahead : lexer.cursor.ahead = taken ++ rest
  /-- The answers on what is accepted are all yes. -/
  approved : judge.approves state taken = true
  /-- There is no longer beginning with this property. -/
  longest : ∀ other, other <+: lexer.cursor.ahead → judge.approves state other = true →
    other <+: taken
  /-- The reply to the request is the number of accepted code points. -/
  perform : lexer.perform (.acceptWhile (judge.test state)) = .ok (taken.length, moved)
  /-- The loop over the offsets ends with the same reply, once it has a round more than there
  are accepted code points. The judge has been asked about these and the next code point. -/
  loop : ∀ rounds, taken.length < rounds →
    ByteLexer.acceptWhile? judge rounds lexer.bytes state =
      some (taken.length, judge.after state (taken ++ rest.take 1), moved.bytes)
  /-- The record of the questions shows these code points, each once and in their order. -/
  asked : ∀ rounds, taken.length < rounds →
    ByteLexer.acceptWhile? judge.recording rounds lexer.bytes (state, []) =
      some (taken.length, (judge.after state (taken ++ rest.take 1), taken ++ rest.take 1),
        moved.bytes)
  /-- The position moves by the bytes of what is accepted. -/
  position : moved.cursor.position = lexer.cursor.position + byteSize taken
  /-- The start stays. -/
  start : moved.cursor.start = lexer.cursor.start
  /-- The queue stays. -/
  queue : moved.queue = lexer.queue
  /-- The end mark stays. -/
  finished : moved.finished = lexer.finished
  /-- Nothing can be given back. -/
  width : moved.cursor.width = 0
  /-- So giving back does nothing. -/
  backup : moved.serve .backup = moved

/-- Every run accepts the longest beginning that a judge approves of. -/
theorem exists_munches {lexer : Lexer} {judge : Judge σ} {state : σ} {taken : List Char}
    (htaken : judge.longest state lexer.cursor.ahead = taken) :
    ∃ rest, lexer.Munches judge state taken rest
      (lexer.goTo (lexer.cursor.skip taken.length)) := by
  obtain ⟨rest, hahead⟩ := judge.longest_prefix state lexer.cursor.ahead
  rw [htaken] at hahead
  -- the last question is about the first code point of the rest, if there is one
  have hquestions : lexer.cursor.ahead.take (taken.length + 1) = taken ++ rest.take 1 := by
    rw [← hahead, List.take_append, List.take_of_length_le (Nat.le_succ _),
      Nat.add_sub_cancel_left]
  have hrecording : judge.recording.longest (state, []) lexer.cursor.ahead = taken :=
    (judge.longest_recording state [] _).trans htaken
  refine ⟨rest, ?_⟩
  exact
    { ahead := hahead.symm
      approved := htaken ▸ judge.approves_longest state lexer.cursor.ahead
      longest := fun other hother happroved => htaken ▸ Judge.prefix_longest hother happroved
      perform := by
        have hrun := Cursor.acceptWhile_test judge state lexer.cursor
        rw [htaken] at hrun
        rw [Lexer.perform, hrun]
        rfl
      loop := fun rounds hrounds => by
        rw [← htaken] at hrounds
        rw [acceptWhile?_bytes judge rfl hrounds, htaken, hquestions]
      asked := fun rounds hrounds => by
        rw [← hrecording] at hrounds
        rw [acceptWhile?_bytes judge.recording rfl hrounds, hrecording, hquestions,
          Judge.after_recording]
        rfl
      position := by
        have hmoved := lexer.cursor.position_skip taken.length
        rw [← hahead, List.take_left] at hmoved
        exact hmoved
      start := rfl
      queue := rfl
      finished := rfl
      width := rfl
      backup := rfl }

/-- The requests that accept the code points of a text one by one. -/
def oneByOne (text : List Char) : List Request :=
  text.map fun c => .accept (String.singleton c)

/-- The code point that comes next is accepted. -/
theorem perform_accept_singleton {lexer : Lexer} {c : Char} {rest : List Char}
    (h : lexer.cursor.ahead = c :: rest) :
    lexer.perform (.accept (String.singleton c)) = .ok (true, lexer.goTo lexer.cursor.next.2) := by
  have hpass : (String.singleton c).toList.contains c = true := by simp
  have haccept : lexer.cursor.accept (String.singleton c).toList = (true, lexer.cursor.next.2) :=
    Cursor.acceptIf_of_pass h hpass
  rw [perform, haccept]
  rfl

/-- Code points that come next are consumed when they are accepted one by one. -/
theorem serveAll_oneByOne {lexer : Lexer} {text rest : List Char}
    (h : lexer.cursor.ahead = text ++ rest) :
    (lexer.serveAll (oneByOne text)).cursor.ahead = rest ∧
      (lexer.serveAll (oneByOne text)).cursor.position =
        lexer.cursor.position + byteSize text := by
  induction text generalizing lexer with
  | nil => exact ⟨h, rfl⟩
  | cons c text ih =>
    have hserve : lexer.serve (.accept (String.singleton c)) =
        lexer.goTo lexer.cursor.next.2 := by
      rw [serve, perform_accept_singleton h]
    have hrun : lexer.serveAll (oneByOne (c :: text)) =
        (lexer.goTo lexer.cursor.next.2).serveAll (oneByOne text) := by
      rw [← hserve]
      rfl
    have hnext : (lexer.goTo lexer.cursor.next.2).cursor.ahead = text ++ rest := by
      rw [Cursor.next_of_cons h]
      rfl
    have hwidth : (lexer.goTo lexer.cursor.next.2).cursor.position =
        lexer.cursor.position + c.utf8Size := by
      change lexer.cursor.next.2.position = _
      rw [lexer.cursor.forward_next.2, Cursor.next_of_cons h]
      rfl
    obtain ⟨hrest, hposition⟩ := ih hnext
    rw [hrun]
    refine ⟨hrest, ?_⟩
    rw [hposition, hwidth, byteSize, Nat.add_assoc]

/-- What accepting a literal comes to. -/
structure Compares (lexer : Lexer) (literal : String) (answer : Bool) (moved : Lexer) : Prop where
  /-- The request has an answer, from the cursor. -/
  perform : lexer.perform (.acceptPrefix literal) = .ok (answer, moved)
  /-- It has the same answer from the offsets. -/
  offsets : lexer.bytes.acceptPrefix? literal.toList = some (answer, moved.bytes)
  /-- The answer is yes exactly for a nonempty literal that comes next. -/
  answer_iff : answer = true ↔ literal ≠ "" ∧ literal.toList <+: lexer.cursor.ahead
  /-- The position is then the one behind the code points of the literal, accepted one by one. -/
  position : answer = true → moved.cursor.position =
    (lexer.serveAll (oneByOne literal.toList)).cursor.position
  /-- All of these are accepted. -/
  accepted : answer = true → ∀ before c after, literal.toList = before ++ c :: after →
    ∃ next, (lexer.serveAll (oneByOne before)).perform (.accept (String.singleton c)) =
      .ok (true, next)
  /-- If the answer is no, nothing changes. -/
  unchanged : answer = false → moved = lexer

/-- Accepting a literal always has an answer. -/
theorem exists_compares (lexer : Lexer) (literal : String) :
    ∃ answer moved, lexer.Compares literal answer moved := by
  have hoffsets := lexer.acceptPrefix?_bytes literal.toList
  have hempty : literal ≠ "" ↔ literal.toList ≠ [] := by simp
  by_cases hcomes : literal.toList ≠ [] ∧ literal.toList <+: lexer.cursor.ahead
  · obtain ⟨hsome, rest, hahead⟩ := hcomes
    have hskip := Cursor.acceptPrefix_of_comes hsome ⟨rest, hahead⟩
    refine ⟨true, lexer.goTo (lexer.cursor.skip literal.toList.length), ?_⟩
    exact
      { perform := by
          rw [Lexer.perform, hskip]
          rfl
        offsets := by rw [hoffsets, hskip]
        answer_iff := iff_of_true rfl ⟨hempty.mpr hsome, rest, hahead⟩
        position := fun _ => by
          have hmoved := lexer.cursor.position_skip literal.toList.length
          rw [← hahead, List.take_left] at hmoved
          exact hmoved.trans (serveAll_oneByOne hahead.symm).2.symm
        accepted := fun _ before c after hsplit => by
          have hahead' : lexer.cursor.ahead = before ++ (c :: after ++ rest) := by
            rw [← hahead, hsplit, List.append_assoc]
          exact ⟨_, perform_accept_singleton (serveAll_oneByOne hahead').1⟩
        unchanged := fun h => absurd h.symm Bool.false_ne_true }
  · have hrefused := Cursor.acceptPrefix_of_other hcomes
    refine ⟨false, lexer, ?_⟩
    exact
      { perform := by
          rw [Lexer.perform, hrefused]
          rfl
        offsets := by
          rw [hoffsets, hrefused]
          rfl
        answer_iff := iff_of_false Bool.false_ne_true fun h => hcomes ⟨hempty.mp h.1, h.2⟩
        position := fun h => absurd h Bool.false_ne_true
        accepted := fun h => absurd h Bool.false_ne_true
        unchanged := fun _ => rfl }

/-- From any state of a lexer a run of accepted code points is the longest on which the
answers of the test are all yes, also when the test changes its mind. A set accepts the
longest run of its members. A literal is accepted if it is not empty and comes next, and
otherwise nothing changes. -/
theorem accepting_is_maximal (lexer : Lexer) :
    (∀ (σ : Type) (judge : Judge σ) (state : σ),
      ∃ taken rest moved, lexer.Munches judge state taken rest moved) ∧
    (∀ valid : String, ∃ rest moved,
      lexer.Munches (Judge.ofTest valid.toList.contains) ()
        (lexer.cursor.ahead.takeWhile valid.toList.contains) rest moved ∧
      lexer.perform (.acceptRun valid) =
        .ok ((lexer.cursor.ahead.takeWhile valid.toList.contains).length, moved)) ∧
    ∀ literal : String, ∃ answer moved, lexer.Compares literal answer moved := by
  refine ⟨fun σ judge state => ?_, fun valid => ?_, lexer.exists_compares⟩
  · obtain ⟨rest, hmunches⟩ := exists_munches (rfl : judge.longest state lexer.cursor.ahead = _)
    exact ⟨_, rest, _, hmunches⟩
  · obtain ⟨rest, hmunches⟩ := exists_munches
      (Judge.longest_ofTest valid.toList.contains lexer.cursor.ahead)
    exact ⟨rest, _, hmunches, hmunches.perform⟩

/-- A judge that approves of two code points and no more, in front of three of two bytes. -/
example :
    (ByteLexer.acceptWhile? (Judge.recording ⟨fun left _ => (left != 0, left - 1)⟩) 3
      (ByteLexer.ofText "ééé") (2, [])).map
        (fun (count, (_, asked), moved) => (count, asked.length, moved.position)) =
      some (2, 3, 4) := by
  decide +kernel

end Lexer

end LanguageKit
