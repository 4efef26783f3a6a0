import LanguageKit.Proofs.CursorOrder

/-!
# What the moves of a cursor come to

A cursor moves forward in two ways: it consumes one code point and holds it, or it skips
some and holds none. Looking ahead and refusing a code point skip nothing, and accepting a
run skips the longest beginning of the text ahead on which the answers of the test are all
yes, also when the test changes its mind from one question to the next.

The start stays in one of two places. It stands in the consumed text between two code
points, or it stands behind the next code point, and then that one has been given back and
nothing can be given back before it is consumed again.
-/

namespace LanguageKit

open Text

/-- A test that may change its mind: it is asked about one code point after the other, and
an answer leaves it in a new state. -/
structure Judge (σ : Type) where
  /-- The answer to a question, and the state behind it. -/
  ask : σ → Char → Bool × σ

namespace Judge

variable {σ : Type}

/-- The judge that always answers as a test does. -/
def ofTest (test : Char → Bool) : Judge Unit := ⟨fun _ c => (test c, ())⟩

/-- The judge that remembers all questions, newest first, and answers as a test does that
sees them. -/
def remembering (test : List Char → Char → Bool) : Judge (List Char) :=
  ⟨fun asked c => (test asked c, c :: asked)⟩

/-- The state after questions, one after the other. -/
def after (judge : Judge σ) (state : σ) (asked : List Char) : σ :=
  asked.foldl (fun state c => (judge.ask state c).2) state

/-- Whether the answers to questions, one after the other, are all yes. -/
def approves (judge : Judge σ) : σ → List Char → Bool
  | _, [] => true
  | state, c :: rest => (judge.ask state c).1 && judge.approves (judge.ask state c).2 rest

/-- The longest beginning of a text on which the answers are all yes. -/
def longest (judge : Judge σ) : σ → List Char → List Char
  | _, [] => []
  | state, c :: rest =>
    if (judge.ask state c).1 then c :: judge.longest (judge.ask state c).2 rest else []

/-- The test that answers as a judge does, whose state it works out from what has been
accepted. -/
def test (judge : Judge σ) (state : σ) (accepted : List Char) (c : Char) : Bool :=
  (judge.ask (judge.after state accepted.reverse) c).1

/-- An answer of yes adds a code point. -/
theorem longest_of_yes {judge : Judge σ} {state : σ} {c : Char}
    (h : (judge.ask state c).1 = true) (rest : List Char) :
    judge.longest state (c :: rest) = c :: judge.longest (judge.ask state c).2 rest := by
  rw [longest, if_pos h]

/-- An answer of no ends the beginning. -/
theorem longest_of_no {judge : Judge σ} {state : σ} {c : Char}
    (h : (judge.ask state c).1 = false) (rest : List Char) :
    judge.longest state (c :: rest) = [] := by
  rw [longest, if_neg (by simp [h])]

/-- The beginning is one of the text. -/
theorem longest_prefix (judge : Judge σ) (state : σ) (text : List Char) :
    judge.longest state text <+: text := by
  induction text generalizing state with
  | nil => exact List.prefix_refl []
  | cons c rest ih =>
    cases h : (judge.ask state c).1 with
    | true =>
      rw [longest_of_yes h]
      exact (List.prefix_cons_inj c).mpr (ih _)
    | false =>
      rw [longest_of_no h]
      exact List.nil_prefix

/-- All answers on the beginning are yes. -/
theorem approves_longest (judge : Judge σ) (state : σ) (text : List Char) :
    judge.approves state (judge.longest state text) = true := by
  induction text generalizing state with
  | nil => rfl
  | cons c rest ih =>
    cases h : (judge.ask state c).1 with
    | true => rw [longest_of_yes h, approves, h, ih, Bool.and_true]
    | false => rw [longest_of_no h, approves]

/-- No other beginning with this property is longer. -/
theorem prefix_longest {judge : Judge σ} {state : σ} {text other : List Char}
    (hbegins : other <+: text) (h : judge.approves state other = true) :
    other <+: judge.longest state text := by
  induction text generalizing state other with
  | nil => exact hbegins
  | cons c rest ih =>
    cases other with
    | nil => exact List.nil_prefix
    | cons first other =>
      obtain ⟨rfl, hrest⟩ := List.cons_prefix_cons.mp hbegins
      rw [approves, Bool.and_eq_true] at h
      rw [longest_of_yes h.1]
      exact (List.prefix_cons_inj first).mpr (ih hrest h.2)

/-- For a test that does not look back the beginning is the one whose code points pass. -/
theorem longest_ofTest (test : Char → Bool) (text : List Char) :
    (ofTest test).longest () text = text.takeWhile test := by
  induction text with
  | nil => rfl
  | cons c rest ih =>
    cases h : test c with
    | true => rw [longest_of_yes h, List.takeWhile_cons_of_pos h, ih]
    | false => rw [longest_of_no h, List.takeWhile_cons_of_neg (by simp [h])]

/-- A judge and its test find the same beginning. -/
theorem longest_remembering (judge : Judge σ) (state : σ) (accepted text : List Char) :
    (remembering (judge.test state)).longest accepted text =
      judge.longest (judge.after state accepted.reverse) text := by
  induction text generalizing accepted with
  | nil => rfl
  | cons c rest ih =>
    -- up to a refusal the code points asked about are those that have been accepted
    have hanswer : ((remembering (judge.test state)).ask accepted c).1 =
        (judge.ask (judge.after state accepted.reverse) c).1 := rfl
    have hafter : judge.after state (c :: accepted).reverse =
        (judge.ask (judge.after state accepted.reverse) c).2 := by
      rw [List.reverse_cons, after, List.foldl_append]
      rfl
    cases h : (judge.ask (judge.after state accepted.reverse) c).1 with
    | true =>
      rw [longest_of_yes (hanswer.trans h), longest_of_yes h, ← hafter]
      exact congrArg (c :: ·) (ih (c :: accepted))
    | false => rw [longest_of_no (hanswer.trans h), longest_of_no h]

end Judge

namespace Cursor

/-- At the end of the text nothing is consumed. -/
theorem next_of_nil {cursor : Cursor} (h : cursor.ahead = []) :
    cursor.next = (none, cursor.skip 0) := by
  rw [next, h]
  simp only [settle, skip, h, List.take_nil, List.drop_nil, List.reverse_nil, List.nil_append]

/-- The next code point is consumed and held. -/
theorem next_of_cons {cursor : Cursor} {c : Char} {rest : List Char}
    (h : cursor.ahead = c :: rest) :
    cursor.next = (some c, ⟨cursor.consumed, some c, rest, cursor.start⟩) := by
  rw [next, h]

/-- Consuming a code point and giving it back skips nothing. -/
theorem backup_next (cursor : Cursor) : cursor.next.2.backup = cursor.skip 0 := by
  cases h : cursor.ahead with
  | nil =>
    rw [next_of_nil h]
    rfl
  | cons c rest =>
    rw [next_of_cons h]
    simp only [backup, skip, h, List.take_zero, List.drop_zero, List.reverse_nil,
      List.nil_append]

/-- Looking at the next code point skips nothing. -/
theorem peek_eq (cursor : Cursor) : cursor.peek = (cursor.next.1, cursor.skip 0) := by
  rw [← backup_next]
  rfl

/-- Nothing is accepted at the end of the text. -/
theorem acceptIf_of_nil {cursor : Cursor} (h : cursor.ahead = []) (test : Char → Bool) :
    cursor.acceptIf test = (false, cursor.skip 0) := by
  rw [← backup_next, acceptIf, next_of_nil h]

/-- A code point that passes is consumed. -/
theorem acceptIf_of_pass {cursor : Cursor} {c : Char} {rest : List Char}
    (h : cursor.ahead = c :: rest) {test : Char → Bool} (hpass : test c = true) :
    cursor.acceptIf test = (true, cursor.next.2) := by
  rw [acceptIf, next_of_cons h]
  exact if_pos hpass

/-- A code point that does not pass is given back, which skips nothing. -/
theorem acceptIf_of_fail {cursor : Cursor} {c : Char} {rest : List Char}
    (h : cursor.ahead = c :: rest) {test : Char → Bool} (hfail : test c = false) :
    cursor.acceptIf test = (false, cursor.skip 0) := by
  rw [← backup_next, acceptIf, next_of_cons h]
  exact if_neg (by simp [hfail])

/-- A code point is consumed when it is accepted, and nothing is skipped when it is refused. -/
theorem acceptIf_moved (cursor : Cursor) (test : Char → Bool) :
    (cursor.acceptIf test).2 =
      if (cursor.acceptIf test).1 then cursor.next.2 else cursor.skip 0 := by
  cases h : cursor.ahead with
  | nil =>
    rw [acceptIf_of_nil h]
    rfl
  | cons c rest =>
    cases hc : test c with
    | true =>
      rw [acceptIf_of_pass h hc]
      rfl
    | false =>
      rw [acceptIf_of_fail h hc]
      rfl

/-- Skipping moves the position by the size of what is skipped. -/
theorem position_skip (cursor : Cursor) (count : Nat) :
    (cursor.skip count).position = cursor.position + byteSize (cursor.ahead.take count) := by
  simp only [skip, position, consumed, Option.toList_none, List.nil_append, byteSize_append,
    byteSize_reverse]
  exact Nat.add_comm _ _

/-- Skipping behind a consumed code point is skipping it as well. -/
theorem skip_next {cursor : Cursor} {c : Char} {rest : List Char}
    (h : cursor.ahead = c :: rest) (count : Nat) :
    cursor.next.2.skip count = cursor.skip (count + 1) := by
  rw [next_of_cons h]
  simp only [skip, consumed, h, Option.toList_some, List.take_succ_cons, List.drop_succ_cons,
    List.reverse_cons, List.append_assoc]

/-- A run ends at a code point that is refused. -/
theorem acceptWhileFrom_of_refused {test : List Char → Char → Bool} {accepted : List Char}
    {cursor moved : Cursor} (h : cursor.acceptIf (test accepted) = (false, moved)) :
    acceptWhileFrom test accepted cursor = (0, moved) := by
  rw [acceptWhileFrom, h]

/-- A run goes on behind a code point that is accepted. -/
theorem acceptWhileFrom_of_accepted {test : List Char → Char → Bool} {accepted : List Char}
    {cursor moved : Cursor} (h : cursor.acceptIf (test accepted) = (true, moved)) :
    acceptWhileFrom test accepted cursor =
      ((acceptWhileFrom test (moved.held.toList ++ accepted) moved).1 + 1,
        (acceptWhileFrom test (moved.held.toList ++ accepted) moved).2) := by
  rw [acceptWhileFrom, h]

/-- A run consumes the longest beginning of the text ahead on which the answers are all
yes, and holds nothing. -/
theorem acceptWhileFrom_eq (test : List Char → Char → Bool) (accepted : List Char)
    (cursor : Cursor) :
    acceptWhileFrom test accepted cursor =
      (((Judge.remembering test).longest accepted cursor.ahead).length,
        cursor.skip ((Judge.remembering test).longest accepted cursor.ahead).length) := by
  -- along the text ahead, since behind an accepted code point the rest is ahead
  induction h : cursor.ahead generalizing accepted cursor with
  | nil => exact acceptWhileFrom_of_refused (acceptIf_of_nil h _)
  | cons c rest ih =>
    cases hc : test accepted c with
    | true =>
      have hyes : ((Judge.remembering test).ask accepted c).1 = true := hc
      have hheld : cursor.next.2.held.toList ++ accepted = c :: accepted := by
        rw [next_of_cons h]
        rfl
      have hrest : cursor.next.2.ahead = rest := by rw [next_of_cons h]
      rw [acceptWhileFrom_of_accepted (acceptIf_of_pass h hc), hheld,
        ih (c :: accepted) cursor.next.2 hrest, skip_next h, Judge.longest_of_yes hyes]
      rfl
    | false =>
      have hno : ((Judge.remembering test).ask accepted c).1 = false := hc
      rw [acceptWhileFrom_of_refused (acceptIf_of_fail h hc), Judge.longest_of_no hno]
      rfl

/-- With the test of a judge a run consumes what the judge approves of. -/
theorem acceptWhile_test {σ : Type} (judge : Judge σ) (state : σ) (cursor : Cursor) :
    cursor.acceptWhile (judge.test state) =
      ((judge.longest state cursor.ahead).length,
        cursor.skip (judge.longest state cursor.ahead).length) := by
  rw [acceptWhile, acceptWhileFrom_eq, Judge.longest_remembering]
  rfl

/-- A literal that comes next is skipped. -/
theorem acceptPrefix_of_comes {cursor : Cursor} {literal : List Char} (hsome : literal ≠ [])
    (hcomes : literal <+: cursor.ahead) :
    cursor.acceptPrefix literal = (true, cursor.skip literal.length) := by
  have hnonempty : literal.isEmpty = false := List.isEmpty_eq_false_iff.mpr hsome
  have hbegins : literal.isPrefixOf cursor.ahead = true := List.isPrefixOf_iff_prefix.mpr hcomes
  rw [acceptPrefix, hnonempty, hbegins]
  rfl

/-- Any other literal changes nothing. -/
theorem acceptPrefix_of_other {cursor : Cursor} {literal : List Char}
    (hother : ¬ (literal ≠ [] ∧ literal <+: cursor.ahead)) :
    cursor.acceptPrefix literal = (false, cursor) := by
  rw [acceptPrefix, if_neg]
  intro h
  rw [Bool.and_eq_true, Bool.not_eq_true', List.isEmpty_eq_false_iff,
    List.isPrefixOf_iff_prefix] at h
  exact hother h

/-- The start stands in the consumed text between two code points, or it stands behind the
next code point, and that one has been given back. -/
inductive Anchored (cursor : Cursor) : Prop where
  /-- The pending text is the end of the consumed text. -/
  | inside (before pending : List Char) (consumed : cursor.consumed.reverse = before ++ pending)
      (start : cursor.start = byteSize before)
  /-- The next code point has been given back from in front of the pending text. -/
  | behind (c : Char) (rest : List Char) (held : cursor.held = none)
      (ahead : cursor.ahead = c :: rest) (start : cursor.start = cursor.position + c.utf8Size)

/-- In front of a text the pending text is empty. -/
theorem anchored_ofText (text : List Char) : (ofText text).Anchored := .inside [] [] rfl rfl

/-- The position is the size of the consumed text, read forward. -/
theorem byteSize_reverse_consumed (cursor : Cursor) :
    byteSize cursor.consumed.reverse = cursor.position := byteSize_reverse cursor.consumed

/-- A start that has been set anew is at the end of the consumed text. -/
theorem Anchored.restart (cursor : Cursor) : cursor.restart.Anchored :=
  .inside cursor.consumed.reverse [] (List.append_nil _).symm
    cursor.byteSize_reverse_consumed.symm

variable {cursor : Cursor}

/-- Skipping code points leaves the start where it stands. Those that are skipped lie in
front of it only if the first has been given back from there. -/
theorem Anchored.skip (h : cursor.Anchored) (count : Nat) : (cursor.skip count).Anchored := by
  have hconsumed : (cursor.skip count).consumed.reverse =
      cursor.consumed.reverse ++ cursor.ahead.take count := by
    simp only [Cursor.skip, Cursor.consumed, Option.toList_none, List.nil_append,
      List.reverse_append, List.reverse_reverse]
  cases h with
  | inside before pending hsplit hstart =>
    refine .inside before (pending ++ cursor.ahead.take count) ?_ hstart
    rw [hconsumed, hsplit, List.append_assoc]
  | behind c rest hheld hahead hstart =>
    cases count with
    | zero => exact .behind c rest rfl hahead hstart
    | succ count =>
      refine .inside (cursor.consumed.reverse ++ [c]) (rest.take count) ?_ ?_
      · rw [hconsumed, hahead, List.take_succ_cons, List.append_assoc, List.singleton_append]
      · rw [byteSize_append, byteSize_reverse_consumed]
        exact hstart

/-- Consuming a code point leaves the start where it stands. -/
theorem Anchored.next (h : cursor.Anchored) : cursor.next.2.Anchored := by
  cases hahead : cursor.ahead with
  | nil =>
    rw [next_of_nil hahead]
    exact h.skip 0
  | cons c rest =>
    rw [next_of_cons hahead]
    cases h with
    | inside before pending hsplit hstart =>
      refine .inside before (pending ++ [c]) ?_ hstart
      rw [← List.append_assoc, ← hsplit]
      exact List.reverse_cons
    | behind first later hheld hfirst hstart =>
      -- the code point that had been given back is consumed again, up to the start
      obtain ⟨rfl, -⟩ := List.cons.inj (hahead.symm.trans hfirst)
      refine .inside (cursor.consumed.reverse ++ [c]) [] ?_ ?_
      · rw [List.append_nil]
        exact List.reverse_cons
      · rw [byteSize_append, byteSize_reverse_consumed]
        exact hstart

/-- Accepting a code point or refusing one leaves the start where it stands. -/
theorem Anchored.acceptIf (h : cursor.Anchored) (test : Char → Bool) :
    (cursor.acceptIf test).2.Anchored := by
  rw [acceptIf_moved]
  split
  · exact h.next
  · exact h.skip 0

/-- Accepting a run leaves the start where it stands. -/
theorem Anchored.acceptWhile (h : cursor.Anchored) (test : List Char → Char → Bool) :
    (cursor.acceptWhile test).2.Anchored := by
  rw [Cursor.acceptWhile, acceptWhileFrom_eq]
  exact h.skip _

/-- Accepting a literal or refusing one leaves the start where it stands. -/
theorem Anchored.acceptPrefix (h : cursor.Anchored) (literal : List Char) :
    (cursor.acceptPrefix literal).2.Anchored := by
  by_cases hcomes : literal ≠ [] ∧ literal <+: cursor.ahead
  · rw [acceptPrefix_of_comes hcomes.1 hcomes.2]
    exact h.skip _
  · rwa [acceptPrefix_of_other hcomes]

/-- Giving a code point back leaves the start behind it exactly when the pending text is
empty. -/
theorem Anchored.backup (h : cursor.Anchored) : cursor.backup.Anchored := by
  cases hheld : cursor.held with
  | none =>
    have hsame : cursor.backup = cursor := by rw [Cursor.backup, hheld]
    rwa [hsame]
  | some c =>
    have hback : cursor.backup =
        { cursor with held := none, ahead := c :: cursor.ahead } := by
      rw [Cursor.backup, hheld]
    have hconsumed : cursor.consumed.reverse = cursor.behind.reverse ++ [c] := by
      rw [Cursor.consumed, hheld]
      exact List.reverse_cons
    rw [hback]
    cases h with
    | inside before pending hsplit hstart =>
      rw [hconsumed] at hsplit
      -- what is given back is the end of the pending text, unless that is empty
      rcases List.eq_nil_or_concat pending with rfl | ⟨front, last, rfl⟩
      · refine .behind c cursor.ahead rfl rfl ?_
        rw [List.append_nil] at hsplit
        rw [hstart, ← hsplit, byteSize_append, byteSize_reverse]
        rfl
      · rw [List.concat_eq_append, ← List.append_assoc] at hsplit
        exact .inside before front (List.append_inj' hsplit rfl).1 hstart
    | behind first rest hnone hahead hstart =>
      rw [hheld] at hnone
      contradiction

end Cursor

end LanguageKit
