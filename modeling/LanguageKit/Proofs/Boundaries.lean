import Mathlib.Data.List.Induction
import LanguageKit.Proofs.ByteOffsets
import LanguageKit.Proofs.TextTiling

/-!
# Offsets between code points

Whatever a lexer is asked for, its start and its position stay between two code points of
its text, and what it can give back is the code point in front of the position or nothing.
So its text can be cut at the offsets, and no request but one for the pending text can go
wrong.

That one goes wrong when the start lies behind the position. Then exactly one code point
stands between them and nothing can be given back. A lexer gets there by giving back a code
point that it consumed before it last started a new pending text, and the first time it gets
there it gets there in no other way.
-/

namespace LanguageKit

open Text

/-- A text can be cut behind each of its beginnings. -/
theorem Text.isValid_of_append {text : String} {before after : List Char}
    (h : text.toList = before ++ after) :
    String.Pos.Raw.IsValid text ⟨byteSize before⟩ ∧ byteSize before ≤ text.utf8ByteSize := by
  have hcut : (dropBytes? (byteSize before) text.toList).isSome = true := by
    rw [h, dropBytes?_append]
    rfl
  refine ⟨(isSome_dropBytes?_iff text _).mp hcut, ?_⟩
  rw [← byteSize_toList, h, byteSize_append]
  exact Nat.le_add_right _ _

namespace Lexer

variable {lexer : Lexer} {text : String}

/-- Where the offsets of a lexer over a text stand. -/
structure OnBoundaries (lexer : Lexer) (text : String) : Prop where
  /-- No code point lies across the start. -/
  start : String.Pos.Raw.IsValid text ⟨lexer.cursor.start⟩
  /-- The start does not lie behind the text. -/
  start_le : lexer.cursor.start ≤ text.utf8ByteSize
  /-- No code point lies across the position. -/
  position : String.Pos.Raw.IsValid text ⟨lexer.cursor.position⟩
  /-- The position does not lie behind the text. -/
  position_le : lexer.cursor.position ≤ text.utf8ByteSize
  /-- What can be given back is nothing, or the code point that ends at the position. -/
  width : lexer.cursor.width = 0 ∨ ∃ c front, lexer.cursor.width = c.utf8Size ∧
    Occupies text.toList [c] ⟨front, lexer.cursor.position⟩
  /-- Between the position and a start behind it stands one code point, and nothing can be
  given back. -/
  reversed : lexer.cursor.position < lexer.cursor.start →
    lexer.cursor.width = 0 ∧
      ∃ c, Occupies text.toList [c] ⟨lexer.cursor.position, lexer.cursor.start⟩

/-- A lexer over a text whose start stands in one of its two places. -/
structure Placed (lexer : Lexer) (text : String) : Prop where
  /-- The text is the one of the cursor. -/
  text_eq : lexer.cursor.text = text.toList
  /-- The start stands in the consumed text or behind the next code point. -/
  anchored : lexer.cursor.Anchored

/-- A lexer in front of a text has its start there. -/
theorem placed_ofText (text : String) : (Lexer.ofText text).Placed text :=
  ⟨rfl, Cursor.anchored_ofText text.toList⟩

/-- Publishing leaves the cursor alone or starts a new pending text there. -/
theorem cursor_serve_emit (lexer : Lexer) (token : Token) :
    (lexer.serve (.emit token)).cursor = lexer.cursor ∨
      (lexer.serve (.emit token)).cursor = lexer.cursor.restart := by
  cases hfinished : lexer.finished with
  | true =>
    rw [serve_emit_of_finished hfinished]
    exact Or.inl rfl
  | false =>
    cases hpending : lexer.pending with
    | error cut =>
      rw [serve_emit_of_error hfinished hpending]
      exact Or.inl rfl
    | ok lexeme =>
      rw [serve_emit_of_ok hfinished hpending]
      exact Or.inr rfl

/-- Publishing a failure leaves the cursor alone. -/
theorem cursor_serve_fail (lexer : Lexer) (message : String) :
    (lexer.serve (.fail message)).cursor = lexer.cursor := by
  cases hfinished : lexer.finished with
  | true => rw [serve_fail_of_finished hfinished]
  | false =>
    rw [serve_fail_of_open hfinished]
    rfl

/-- No request leads the start out of its two places. -/
theorem Placed.serve (h : lexer.Placed text) (request : Request) :
    (lexer.serve request).Placed text := by
  obtain ⟨htext, hanchored⟩ := h
  cases request with
  | next => exact ⟨lexer.cursor.text_next.trans htext, hanchored.next⟩
  | backup => exact ⟨lexer.cursor.text_backup.trans htext, hanchored.backup⟩
  | peek =>
    refine ⟨lexer.cursor.text_peek.trans htext, ?_⟩
    change lexer.cursor.peek.2.Anchored
    rw [Cursor.peek_eq]
    exact hanchored.skip 0
  | accept valid => exact ⟨(lexer.cursor.text_acceptIf _).trans htext, hanchored.acceptIf _⟩
  | acceptRun valid =>
    exact ⟨(Cursor.text_acceptWhileFrom _ [] _).trans htext, hanchored.acceptWhile _⟩
  | acceptIf test => exact ⟨(lexer.cursor.text_acceptIf _).trans htext, hanchored.acceptIf _⟩
  | acceptWhile test =>
    exact ⟨(Cursor.text_acceptWhileFrom _ [] _).trans htext, hanchored.acceptWhile _⟩
  | acceptPrefix literal =>
    exact ⟨(lexer.cursor.text_acceptPrefix _).trans htext, hanchored.acceptPrefix _⟩
  | emit token =>
    rcases lexer.cursor_serve_emit token with hcursor | hcursor
    · exact ⟨hcursor ▸ htext, hcursor ▸ hanchored⟩
    · exact ⟨hcursor ▸ htext, hcursor ▸ Cursor.Anchored.restart _⟩
  | ignore => exact ⟨htext, Cursor.Anchored.restart _⟩
  | fail message =>
    have hcursor := lexer.cursor_serve_fail message
    exact ⟨hcursor ▸ htext, hcursor ▸ hanchored⟩
  | pending =>
    rw [serve_pending]
    exact ⟨htext, hanchored⟩
  | remainingInput | input | start | position | inspect => exact ⟨htext, hanchored⟩

/-- No requests do. -/
theorem Placed.serveAll (h : lexer.Placed text) (requests : List Request) :
    (lexer.serveAll requests).Placed text := by
  induction requests generalizing lexer with
  | nil => exact h
  | cons request rest ih => exact ih (h.serve request)

/-- Served with its offsets a lexer gets where it gets with its cursor. -/
theorem Placed.serve_bytes (h : lexer.Placed text) (request : Request) :
    lexer.bytes.serve request = (lexer.serve request).bytes := by
  rw [ByteLexer.serve, perform?_bytes h.anchored, Lexer.serve]
  cases lexer.perform request <;> rfl

/-- So it does with requests, one after the other. -/
theorem Placed.serveAll_bytes (h : lexer.Placed text) (requests : List Request) :
    lexer.bytes.serveAll requests = (lexer.serveAll requests).bytes := by
  induction requests generalizing lexer with
  | nil => rfl
  | cons request rest ih =>
    have hrest := ih (h.serve request)
    rw [← h.serve_bytes request] at hrest
    exact hrest

/-- What can be given back is nothing or the last code point of the consumed text. -/
theorem width_eq_zero_or (lexer : Lexer) :
    lexer.cursor.width = 0 ∨ ∃ c front, lexer.cursor.width = c.utf8Size ∧
      Occupies lexer.cursor.text [c] ⟨front, lexer.cursor.position⟩ := by
  cases hheld : lexer.cursor.held with
  | none =>
    left
    rw [Cursor.width, hheld]
    rfl
  | some c =>
    have hconsumed : lexer.cursor.consumed.reverse = lexer.cursor.behind.reverse ++ [c] := by
      rw [Cursor.consumed, hheld]
      exact List.reverse_cons
    have htext : lexer.cursor.text =
        lexer.cursor.behind.reverse ++ ([c] ++ lexer.cursor.ahead) := by
      rw [Cursor.text, hconsumed, List.append_assoc]
    have hwidth : lexer.cursor.width = c.utf8Size := by
      rw [Cursor.width, hheld]
      rfl
    have hstop : byteSize (lexer.cursor.behind.reverse ++ [c]) = lexer.cursor.position := by
      rw [← hconsumed, lexer.cursor.byteSize_reverse_consumed]
    exact Or.inr ⟨c, _, hwidth, _, _, htext, rfl, hstop⟩

/-- With its start in one of its two places a lexer has its offsets between code points. -/
theorem Placed.onBoundaries (h : lexer.Placed text) : lexer.OnBoundaries text := by
  obtain ⟨htext, hanchored⟩ := h
  have hsplit : text.toList = lexer.cursor.consumed.reverse ++ lexer.cursor.ahead := htext.symm
  have hposition := isValid_of_append hsplit
  rw [lexer.cursor.byteSize_reverse_consumed] at hposition
  cases hanchored with
  | inside before pending hconsumed hstart =>
    have hfront : text.toList = before ++ (pending ++ lexer.cursor.ahead) := by
      rw [hsplit, hconsumed, List.append_assoc]
    have hle : lexer.cursor.start ≤ lexer.cursor.position := by
      rw [hstart, ← lexer.cursor.byteSize_reverse_consumed, hconsumed, byteSize_append]
      exact Nat.le_add_right _ _
    exact
      { start := hstart ▸ (isValid_of_append hfront).1
        start_le := hstart ▸ (isValid_of_append hfront).2
        position := hposition.1
        position_le := hposition.2
        width := htext ▸ lexer.width_eq_zero_or
        reversed := fun hlt => absurd hle (Nat.not_le_of_lt hlt) }
  | behind c rest hheld hahead hstart =>
    have hfront : text.toList = (lexer.cursor.consumed.reverse ++ [c]) ++ rest := by
      rw [hsplit, hahead, List.append_assoc]
      rfl
    have hsize : byteSize (lexer.cursor.consumed.reverse ++ [c]) = lexer.cursor.start := by
      rw [byteSize_append, lexer.cursor.byteSize_reverse_consumed, hstart]
      rfl
    have hnone : lexer.cursor.width = 0 := by
      rw [Cursor.width, hheld]
      rfl
    exact
      { start := hsize ▸ (isValid_of_append hfront).1
        start_le := hsize ▸ (isValid_of_append hfront).2
        position := hposition.1
        position_le := hposition.2
        width := htext ▸ lexer.width_eq_zero_or
        reversed := fun _ => ⟨hnone, c, lexer.cursor.consumed.reverse, rest,
          hfront.trans (List.append_assoc _ _ _), lexer.cursor.byteSize_reverse_consumed, hsize⟩ }

/-- Only the pending text can be out of reach: every other request has an answer, from the
offsets as from the cursor. -/
theorem Placed.exists_answer (h : lexer.Placed text) {request : Request}
    (hemit : ∀ token, request ≠ .emit token) (hpending : request ≠ .pending) :
    ∃ reply moved, lexer.bytes.perform? request = some (reply, bytes moved) ∧
      lexer.perform request = .ok (reply, moved) := by
  have hanswer : ∃ outcome, lexer.perform request = .ok outcome := by
    cases request with
    | emit token => exact absurd rfl (hemit token)
    | pending => exact absurd rfl hpending
    | _ => exact ⟨_, rfl⟩
  obtain ⟨⟨reply, moved⟩, hok⟩ := hanswer
  refine ⟨reply, moved, ?_, hok⟩
  rw [perform?_bytes h.anchored, hok]
  rfl

/-- A run of requests goes on from where another has ended. -/
theorem serveAll_append (lexer : Lexer) (earlier later : List Request) :
    lexer.serveAll (earlier ++ later) = (lexer.serveAll earlier).serveAll later :=
  List.foldl_append

/-- A run can be cut behind any of its requests. -/
theorem serveAll_cut (lexer : Lexer) (earlier : List Request) (cut : Request)
    (later : List Request) :
    lexer.serveAll (earlier ++ cut :: later) =
      (lexer.serveAll (earlier ++ [cut])).serveAll later := by
  rw [← serveAll_append, List.append_assoc]
  rfl

/-- Requests that neither start a new pending text nor decide anew what can be given back. -/
def Idle : Lexer → List Request → Prop
  | _, [] => True
  | lexer, request :: rest =>
    lexer.restarts request = false ∧ lexer.moves request = false ∧ (lexer.serve request).Idle rest

/-- One more request behind others. -/
theorem Idle.snoc {requests : List Request} {request : Request} (h : lexer.Idle requests)
    (hrestarts : (lexer.serveAll requests).restarts request = false)
    (hmoves : (lexer.serveAll requests).moves request = false) :
    lexer.Idle (requests ++ [request]) := by
  induction requests generalizing lexer with
  | nil => exact ⟨hrestarts, hmoves, trivial⟩
  | cons first rest ih => exact ⟨h.1, h.2.1, ih h.2.2 hrestarts hmoves⟩

/-- A request that neither starts a new pending text nor decides anew what can be given back
leaves the cursor alone. -/
theorem cursor_serve_of_idle {request : Request} (hrestarts : lexer.restarts request = false)
    (hmoves : lexer.moves request = false) : (lexer.serve request).cursor = lexer.cursor := by
  cases request with
  | next | backup | peek | accept | acceptRun | acceptIf | acceptWhile => simp [moves] at hmoves
  | ignore => simp [restarts] at hrestarts
  | acceptPrefix literal => exact (lexer.cursor.forward_acceptPrefix literal.toList).2 hmoves
  | emit token =>
    have hfinished : lexer.finished = true := by simpa [restarts] using hrestarts
    rw [serve_emit_of_finished hfinished]
  | fail message => exact lexer.cursor_serve_fail message
  | pending => rw [serve_pending]
  | remainingInput | input | start | position | inspect => rfl

/-- So do such requests, one after the other. -/
theorem Idle.cursor_serveAll {requests : List Request} (h : lexer.Idle requests) :
    (lexer.serveAll requests).cursor = lexer.cursor := by
  induction requests generalizing lexer with
  | nil => rfl
  | cons request rest ih => exact (ih h.2.2).trans (cursor_serve_of_idle h.1 h.2.1)

/-- A request that starts a new pending text does nothing else to the cursor, if the old one
can be cut out. -/
theorem cursor_serve_of_restarts {request : Request} (h : lexer.restarts request = true)
    (hordered : lexer.cursor.start ≤ lexer.cursor.position) :
    (lexer.serve request).cursor = lexer.cursor.restart := by
  cases request with
  | emit token =>
    have hopen : lexer.finished = false := by simpa [restarts] using h
    obtain ⟨lexeme, hlexeme⟩ := exists_pending hordered
    rw [serve_emit_of_ok hopen hlexeme]
  | ignore => rfl
  | _ => simp [restarts] at h

/-- A run in which nothing has been decided about what can be given back since a new pending
text was last started. -/
def RestartedLast (lexer : Lexer) (requests : List Request) : Prop :=
  ∃ earlier cut later, requests = earlier ++ cut :: later ∧
    (lexer.serveAll earlier).restarts cut = true ∧ (lexer.serveAll (earlier ++ [cut])).Idle later

/-- As long as the start never lies behind the position, a lexer is tracked, and a restart
it remembers is the last thing that has happened to the cursor. -/
theorem exists_tracked {size : Nat} (htracked : lexer.Tracked size false)
    {requests : List Request}
    (hordered : ∀ before, before <+: requests →
      (lexer.serveAll before).cursor.start ≤ (lexer.serveAll before).cursor.position) :
    ∃ restarted, (lexer.serveAll requests).Tracked size restarted ∧
      (restarted = true → lexer.RestartedLast requests) := by
  induction requests using List.reverseRecOn with
  | nil => exact ⟨false, htracked, fun h => absurd h Bool.false_ne_true⟩
  | append_singleton earlier request ih =>
    obtain ⟨restarted, hearlier, hlast⟩ := ih fun before hbefore =>
      hordered before (hbefore.trans (List.prefix_append _ _))
    have hnow := hordered (earlier ++ [request]) (List.prefix_refl _)
    have hsnoc : lexer.serveAll (earlier ++ [request]) = (lexer.serveAll earlier).serve request :=
      lexer.serveAll_append earlier [request]
    rw [hsnoc] at hnow ⊢
    -- nothing is given back from in front of the pending text, or the order would be lost
    have hbackup : ¬ (request = .backup ∧ restarted = true ∧
        (lexer.serveAll earlier).cursor.held.isSome = true) := by
      rintro ⟨rfl, rfl, hheld⟩
      exact absurd hnow (Nat.not_le_of_lt (hearlier.position_lt_start_backup hheld))
    refine ⟨_, hearlier.serve request hbackup, fun hrestarted => ?_⟩
    rw [restartedBy] at hrestarted
    split at hrestarted
    · rename_i hrestarts
      exact ⟨earlier, request, [], rfl, hrestarts, trivial⟩
    · rename_i hrestarts
      split at hrestarted
      · contradiction
      · rename_i hmoves
        obtain ⟨first, cut, later, rfl, hcut, hidle⟩ := hlast hrestarted
        rw [serveAll_cut] at hrestarts hmoves
        exact ⟨first, cut, later ++ [request], List.append_assoc _ _ _, hcut,
          hidle.snoc (Bool.eq_false_iff.mpr hrestarts) (Bool.eq_false_iff.mpr hmoves)⟩

/-- A run behind which a code point from in front of the pending text can be given back: it
was held already when the pending text was last started anew, and nothing has happened to the
cursor since. -/
def HoldsOld (lexer : Lexer) (requests : List Request) : Prop :=
  ∃ earlier cut later c, requests = earlier ++ cut :: later ∧
    (lexer.serveAll earlier).restarts cut = true ∧
    (lexer.serveAll (earlier ++ [cut])).Idle later ∧
    (lexer.serveAll earlier).cursor.held = some c ∧
    (lexer.serveAll requests).cursor = (lexer.serveAll earlier).cursor.restart

/-- The first request that leads the position in front of the start gives back a code point
that was held already when the pending text was last started anew. -/
theorem first_reversed {size : Nat} (htracked : lexer.Tracked size false)
    {requests : List Request}
    (hordered : ∀ before, before <+: requests →
      (lexer.serveAll before).cursor.start ≤ (lexer.serveAll before).cursor.position)
    {request : Request}
    (hreversed : ((lexer.serveAll requests).serve request).cursor.position <
      ((lexer.serveAll requests).serve request).cursor.start) :
    request = .backup ∧ lexer.HoldsOld requests := by
  obtain ⟨restarted, htracked, hlast⟩ := exists_tracked htracked hordered
  have hbackup : request = .backup ∧ restarted = true ∧
      (lexer.serveAll requests).cursor.held.isSome = true := by
    by_contra hnot
    exact absurd (htracked.serve request hnot).start_le (Nat.not_le_of_lt hreversed)
  obtain ⟨rfl, rfl, hheld⟩ := hbackup
  -- what is held now was held at the last restart, since only a restart has touched the cursor
  obtain ⟨earlier, cut, later, rfl, hcut, hidle⟩ := hlast rfl
  have hcursor : (lexer.serveAll (earlier ++ cut :: later)).cursor =
      (lexer.serveAll earlier).cursor.restart := by
    rw [serveAll_cut, hidle.cursor_serveAll, serveAll_append]
    exact cursor_serve_of_restarts hcut (hordered earlier (List.prefix_append _ _))
  obtain ⟨c, hc⟩ := Option.isSome_iff_exists.mp hheld
  rw [hcursor] at hc
  exact ⟨rfl, earlier, cut, later, c, rfl, hcut, hidle, hc, hcursor⟩

/-- Over any text and after any requests, of which those that go wrong leave the lexer as it
was, the start and the position stand between code points of the text and what can be given
back is the code point in front of the position. The lexer that keeps nothing but offsets is
at the same place, and each of its requests but publishing and showing the pending text has
an answer, which is that of the cursor. Only a code point given back from in front of the
pending text leads the position in front of the start for the first time. Looking at a code
point and refusing one leave the position alone. -/
theorem offsets_stay_on_boundaries (text : String) (requests : List Request) :
    ((Lexer.ofText text).serveAll requests).OnBoundaries text ∧
      let lexer := (Lexer.ofText text).serveAll requests
      (ByteLexer.ofText text).serveAll requests = lexer.bytes ∧
      (∀ request : Request, (∀ token, request ≠ .emit token) → request ≠ .pending →
        ∃ reply moved, lexer.bytes.perform? request = some (reply, bytes moved) ∧
          lexer.perform request = .ok (reply, moved)) ∧
      ((∀ before, before <+: requests → ((Lexer.ofText text).serveAll before).cursor.start ≤
          ((Lexer.ofText text).serveAll before).cursor.position) →
        ∀ request, (lexer.serve request).cursor.position < (lexer.serve request).cursor.start →
          request = .backup ∧ (Lexer.ofText text).HoldsOld requests) ∧
      (lexer.serve .peek).cursor.position = lexer.cursor.position ∧
      (∀ test moved, lexer.perform (.acceptIf test) = .ok (false, moved) →
        moved.cursor.position = lexer.cursor.position) ∧
      ∀ valid moved, lexer.perform (.accept valid) = .ok (false, moved) →
        moved.cursor.position = lexer.cursor.position := by
  have hplaced : ((Lexer.ofText text).serveAll requests).Placed text :=
    (placed_ofText text).serveAll requests
  have hrefused {lexer : Lexer} {test : Char → Bool} {moved : Lexer}
      (h : lexer.perform (.acceptIf test) = .ok (false, moved)) :
      moved.cursor.position = lexer.cursor.position := by
    obtain ⟨hanswer, rfl⟩ := Prod.mk.inj (Except.ok.inj h)
    change (lexer.cursor.acceptIf test).2.position = lexer.cursor.position
    rw [Cursor.acceptIf_moved, if_neg (by simp [hanswer])]
    rfl
  refine ⟨hplaced.onBoundaries, (placed_ofText text).serveAll_bytes requests,
    fun request hemit hpending => hplaced.exists_answer hemit hpending,
    fun hordered request hreversed => first_reversed (tracked_ofText text) hordered hreversed,
    ?_, fun test moved h => hrefused h, fun valid moved h => hrefused h⟩
  change (((Lexer.ofText text).serveAll requests).cursor.peek.2).position = _
  rw [Cursor.peek_eq]
  rfl

/-- A code point of two bytes that is dropped can be given back. Then the position is two
bytes in front of the start. -/
theorem offsets_stay_on_boundaries_accent :
    let lexer := (Lexer.ofText "é").serveAll [.next, .ignore]
    (lexer.serve .backup).cursor.position = 0 ∧ (lexer.serve .backup).cursor.start = 2 ∧
      (Lexer.ofText "é").HoldsOld [.next, .ignore] := by
  intro lexer
  have hordered : ∀ before, before <+: [Request.next, .ignore] →
      ((Lexer.ofText "é").serveAll before).cursor.start ≤
        ((Lexer.ofText "é").serveAll before).cursor.position := by
    intro before hbefore
    rcases List.prefix_cons_iff.mp hbefore with rfl | ⟨rest, rfl, hrest⟩
    · decide
    · rcases List.prefix_cons_iff.mp hrest with rfl | ⟨last, rfl, hlast⟩
      · decide
      · obtain rfl := List.prefix_nil.mp hlast
        decide
  obtain ⟨-, -, -, hfirst, -⟩ := offsets_stay_on_boundaries "é" [.next, .ignore]
  exact ⟨by decide, by decide, (hfirst hordered .backup (by decide)).2⟩

end Lexer

end LanguageKit
