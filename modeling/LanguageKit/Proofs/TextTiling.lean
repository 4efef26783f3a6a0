import LanguageKit.Proofs.SequenceEnd

/-!
# Tiling a text by its pieces

While a text is scanned, its pending part is published or dropped again and again.
The pieces that leave it in this way lie one behind the other: they begin at the
front of the text, leave no gap and never overlap, and each has the very text of
its span. So the lexemes, together with what was dropped, are the text up to the
place where the scan ended. The one thing that must not happen is that a code
point is given back from in front of the pending text.
-/

namespace LanguageKit

open Text

/-- A part of a text takes up the bytes of a span. -/
def Text.Occupies (text part : List Char) (span : Span) : Prop :=
  ∃ before after, text = before ++ (part ++ after) ∧ byteSize before = span.start ∧
    byteSize (before ++ part) = span.stop

/-- A text without bytes is empty. -/
theorem Text.eq_nil_of_byteSize {text : List Char} (h : byteSize text = 0) : text = [] := by
  cases text with
  | nil => rfl
  | cons c rest =>
    have hpositive := c.utf8Size_pos
    rw [byteSize] at h
    omega

/-- Spans that lie one behind the other without a gap, from one offset to another. -/
def Span.Tiles : Nat → List Span → Nat → Prop
  | start, [], stop => start = stop
  | start, span :: rest, stop => span.start = start ∧ span.start ≤ span.stop ∧
      Tiles span.stop rest stop

/-- One more span behind others. -/
theorem Span.Tiles.snoc {start stop : Nat} {spans : List Span} (h : Span.Tiles start spans stop)
    {span : Span} (hstart : span.start = stop) (hle : span.start ≤ span.stop) :
    Span.Tiles start (spans ++ [span]) span.stop := by
  induction spans generalizing start with
  | nil =>
    have heq : start = stop := h
    exact ⟨hstart.trans heq.symm, hle, rfl⟩
  | cons first rest ih =>
    obtain ⟨hfirst, horder, hrest⟩ := h
    exact ⟨hfirst, horder, ih hrest⟩

namespace Lexer

/-- What leaves the pending text. -/
inductive Piece where
  /-- It is published as an item. -/
  | published (item : Item)
  /-- It is dropped. -/
  | dropped (span : Span) (text : String)

namespace Piece

/-- The bytes of a piece. -/
def span : Piece → Span
  | published item => item.span
  | dropped span _ => span

/-- The text of a piece: the lexeme, or what was dropped. -/
def text : Piece → List Char
  | published item => item.lexeme.toList
  | dropped _ text => text.toList

/-- The item of a piece that is published. -/
def item? : Piece → Option Item
  | published item => some item
  | dropped _ _ => none

end Piece

/-- The pieces a request cuts off: what is published beside the items of the queue,
and what is dropped before the final item. -/
def cutBy (lexer : Lexer) : Request → List Piece
  | .emit token => ((lexer.serve (.emit token)).queue.drop lexer.queue.length).map .published
  | .ignore =>
    if lexer.finished then []
    else [.dropped lexer.span (String.ofList (lexer.cursor.pending?.getD []))]
  | _ => []

/-- What is published before the final item is cut off. -/
theorem cutBy_emit_of_ok {lexer : Lexer} (hopen : lexer.finished = false) {lexeme : String}
    (h : lexer.pending = .ok lexeme) (token : Token) :
    lexer.cutBy (.emit token) = [.published ⟨token, lexeme, lexer.span⟩] := by
  rw [cutBy, serve_emit_of_ok hopen h]
  simp only [enqueue]
  rw [List.drop_left, List.map_singleton]

/-- What cannot be cut out is not cut off. -/
theorem cutBy_emit_of_error {lexer : Lexer} (hopen : lexer.finished = false) {cut : CutError}
    (h : lexer.pending = .error cut) (token : Token) : lexer.cutBy (.emit token) = [] := by
  rw [cutBy, serve_emit_of_error hopen h, List.drop_length, List.map_nil]

/-- What is dropped before the final item is cut off. -/
theorem cutBy_ignore {lexer : Lexer} (hopen : lexer.finished = false) :
    lexer.cutBy .ignore =
      [.dropped lexer.span (String.ofList (lexer.cursor.pending?.getD []))] := by
  rw [cutBy, if_neg (by simp [hopen])]

/-- The pieces that requests cut off, one after the other. -/
def pieces : Lexer → List Request → List Piece
  | _, [] => []
  | lexer, request :: rest => lexer.cutBy request ++ (lexer.serve request).pieces rest

/-- The item by which a request reports a failure. -/
def failedBy (lexer : Lexer) : Request → List Item
  | .fail message => [.failed message lexer.span]
  | _ => []

/-- Pieces tile a text up to an offset: their spans leave no gap, every piece has the
text of its span, and all of them together have the text up to the offset. -/
structure Tiling (text : List Char) (pieces : List Piece) (stop : Nat) : Prop where
  /-- The spans lie one behind the other. -/
  contiguous : Span.Tiles 0 (pieces.map Piece.span) stop
  /-- A piece has the text of its span. -/
  occupies : ∀ piece ∈ pieces, Occupies text piece.text piece.span
  /-- The texts of the pieces, joined, are the text up to the offset. -/
  joined : Occupies text (pieces.flatMap Piece.text) ⟨0, stop⟩

variable {lexer : Lexer} {text : List Char} {done : List Piece} {size : Nat} {restarted : Bool}

/-- Without a piece nothing is tiled. -/
theorem tiling_nil (text : List Char) : Tiling text [] 0 :=
  { contiguous := rfl
    occupies := by simp
    joined := ⟨[], text, rfl, rfl, rfl⟩ }

/-- Pieces that tile the text of a lexer up to the start of its pending text. -/
structure Tiled (lexer : Lexer) (text : List Char) (done : List Piece) : Prop where
  /-- The text is that of the lexer. -/
  text_eq : lexer.cursor.text = text
  /-- The pieces reach up to the pending text. -/
  tiling : Tiling text done lexer.cursor.start

/-- The consumed text is that of the pieces and the pending text. -/
theorem Tiled.exists_pending (h : lexer.Tiled text done)
    (hle : lexer.cursor.start ≤ lexer.cursor.position) :
    ∃ pend, lexer.cursor.consumed.reverse = done.flatMap Piece.text ++ pend ∧
      lexer.cursor.pending? = some pend := by
  obtain ⟨before, after, hjoined, hbefore, hstart⟩ := h.tiling.joined
  obtain rfl := eq_nil_of_byteSize hbefore
  rw [List.nil_append] at hjoined hstart
  -- both the joined pieces and the consumed text are beginnings of the text
  have hprefix : done.flatMap Piece.text <+: lexer.cursor.consumed.reverse := by
    have hdone : done.flatMap Piece.text <+: text := ⟨after, hjoined.symm⟩
    have hconsumed : lexer.cursor.consumed.reverse <+: text := ⟨lexer.cursor.ahead, h.text_eq⟩
    rcases List.prefix_or_prefix_of_prefix hdone hconsumed with hshort | ⟨extra, hextra⟩
    · exact hshort
    · have hsize := congrArg byteSize hextra
      rw [byteSize_append, byteSize_reverse, hstart] at hsize
      have hzero : byteSize extra = 0 := by
        change lexer.cursor.position + byteSize extra = _ at hsize
        dsimp only at hsize
        omega
      have hsame : done.flatMap Piece.text = lexer.cursor.consumed.reverse := by
        rw [← hextra, eq_nil_of_byteSize hzero, List.append_nil]
      exact hsame ▸ List.prefix_rfl
  obtain ⟨pend, hpend⟩ := hprefix
  refine ⟨pend, hpend.symm, ?_⟩
  have hconsumed : lexer.cursor.consumed = pend.reverse ++ (done.flatMap Piece.text).reverse := by
    rw [← List.reverse_append, hpend, List.reverse_reverse]
  have hroom : lexer.cursor.position - lexer.cursor.start = byteSize pend.reverse := by
    have hposition : lexer.cursor.position = byteSize (done.flatMap Piece.text ++ pend) := by
      rw [hpend, byteSize_reverse]
      rfl
    rw [hposition, byteSize_append, hstart, byteSize_reverse]
    dsimp only
    omega
  unfold Cursor.pending?
  rw [if_pos hle, hroom, hconsumed, takeBytes_append, takeBytes_zero, List.append_nil,
    List.reverse_reverse]

/-- The pending text, cut off as one more piece, leaves the pieces without a gap. -/
theorem Tiled.cut (h : lexer.Tiled text done)
    (hle : lexer.cursor.start ≤ lexer.cursor.position) {piece : Piece}
    (hspan : piece.span = lexer.span) (htext : lexer.cursor.pending? = some piece.text) :
    Tiling text (done ++ [piece]) lexer.cursor.position := by
  obtain ⟨pend, hconsumed, hpend⟩ := h.exists_pending hle
  have hpiece : piece.text = pend := by
    rw [hpend] at htext
    exact (Option.some.inj htext).symm
  have hwhole : text = done.flatMap Piece.text ++ (pend ++ lexer.cursor.ahead) := by
    rw [← List.append_assoc, ← hconsumed]
    exact h.text_eq.symm
  have hposition : byteSize (done.flatMap Piece.text ++ pend) = lexer.cursor.position := by
    rw [← hconsumed, byteSize_reverse]
    rfl
  obtain ⟨before, after, -, hbefore, hstart⟩ := h.tiling.joined
  have hstart' : byteSize (done.flatMap Piece.text) = lexer.cursor.start := by
    rw [byteSize_append, hbefore] at hstart
    simpa using hstart
  refine ⟨?_, ?_, ?_⟩
  · rw [List.map_append, List.map_singleton, hspan]
    exact h.tiling.contiguous.snoc rfl hle
  · intro other hother
    rcases List.mem_append.mp hother with hother | hother
    · exact h.tiling.occupies other hother
    · rw [List.mem_singleton.mp hother, hpiece, hspan]
      exact ⟨_, _, hwhole, hstart', hposition⟩
  · rw [List.flatMap_append, List.flatMap_singleton, hpiece]
    refine ⟨[], lexer.cursor.ahead, ?_, rfl, hposition⟩
    rw [List.nil_append, List.append_assoc]
    exact hwhole

/-- A cursor that keeps the text and the start keeps the pieces. -/
theorem Tiled.move (h : lexer.Tiled text done) {cursor : Cursor}
    (htext : cursor.text = lexer.cursor.text) (hstart : cursor.start = lexer.cursor.start) :
    Tiled { lexer with cursor } text (done ++ []) := by
  rw [List.append_nil]
  exact ⟨htext.trans h.text_eq, hstart ▸ h.tiling⟩

/-- Before the final item, a request adds the pieces it cuts off. -/
theorem Tiled.serve (h : lexer.Tiled text done) (htracked : lexer.Tracked size restarted)
    (hopen : lexer.finished = false) (request : Request) :
    (lexer.serve request).Tiled text (done ++ lexer.cutBy request) := by
  have hle := htracked.start_le
  obtain ⟨pend, -, hpend⟩ := h.exists_pending hle
  cases request with
  | next => exact h.move lexer.cursor.text_next lexer.cursor.forward_next.1.start
  | backup => exact h.move lexer.cursor.text_backup lexer.cursor.start_backup
  | peek => exact h.move lexer.cursor.text_peek lexer.cursor.forward_peek.start
  | accept valid =>
    exact h.move (lexer.cursor.text_acceptIf _) (lexer.cursor.forward_acceptIf _).start
  | acceptRun valid =>
    exact h.move (Cursor.text_acceptWhileFrom _ [] lexer.cursor)
      (lexer.cursor.forward_acceptWhileFrom _ []).start
  | acceptIf test =>
    exact h.move (lexer.cursor.text_acceptIf test) (lexer.cursor.forward_acceptIf test).start
  | acceptWhile test =>
    exact h.move (Cursor.text_acceptWhileFrom test [] lexer.cursor)
      (lexer.cursor.forward_acceptWhileFrom test []).start
  | acceptPrefix literal =>
    obtain ⟨haccepted, hrefused⟩ := lexer.cursor.forward_acceptPrefix literal.toList
    refine h.move (lexer.cursor.text_acceptPrefix literal.toList) ?_
    cases hanswer : (lexer.cursor.acceptPrefix literal.toList).1 with
    | true => exact (haccepted hanswer).start
    | false => rw [hrefused hanswer]
  | emit token =>
    have hpending : lexer.pending = .ok (String.ofList pend) := by
      unfold Lexer.pending
      rw [hpend]
    rw [serve_emit_of_ok hopen hpending, cutBy_emit_of_ok hopen hpending]
    have htext : lexer.cursor.pending? = some (String.ofList pend).toList := by
      rw [hpend, String.toList_ofList]
    exact ⟨h.text_eq, h.cut hle rfl htext⟩
  | ignore =>
    rw [cutBy_ignore hopen, hpend, Option.getD_some]
    have htext : lexer.cursor.pending? = some (String.ofList pend).toList := by
      rw [hpend, String.toList_ofList]
    exact ⟨h.text_eq, h.cut hle rfl htext⟩
  | fail message =>
    rw [serve_fail_of_open hopen]
    change Tiled _ text (done ++ [])
    rw [List.append_nil]
    exact ⟨h.text_eq, h.tiling⟩
  | pending =>
    rw [serve_pending]
    exact h.move rfl rfl
  | _ => exact h.move rfl rfl

/-- A finished lexer stays finished, and its queue stays as it is. -/
theorem serveAll_of_finished (h : lexer.finished = true) (requests : List Request) :
    (lexer.serveAll requests).finished = true ∧
      (lexer.serveAll requests).queue = lexer.queue := by
  induction requests generalizing lexer with
  | nil => exact ⟨h, rfl⟩
  | cons request rest ih =>
    obtain ⟨hqueue, hfinished⟩ | ⟨hopen, -⟩ := lexer.queue_serve request
    · obtain ⟨hlast, hitems⟩ := ih (hfinished.trans h)
      exact ⟨hlast, hitems.trans hqueue⟩
    · rw [h] at hopen
      contradiction

/-- Before the final item, a request queues what it publishes and what it reports. -/
theorem queue_serve_eq (hopen : lexer.finished = false) (request : Request) :
    (lexer.serve request).queue =
      lexer.queue ++ (lexer.cutBy request).filterMap Piece.item? ++ lexer.failedBy request := by
  cases request with
  | emit token =>
    cases hpending : lexer.pending with
    | error cut =>
      rw [serve_emit_of_error hopen hpending, cutBy_emit_of_error hopen hpending]
      simp [failedBy]
    | ok lexeme =>
      rw [serve_emit_of_ok hopen hpending, cutBy_emit_of_ok hopen hpending]
      simp [failedBy, enqueue, Piece.item?]
  | ignore =>
    rw [cutBy_ignore hopen]
    change lexer.queue = _
    simp [failedBy, Piece.item?]
  | fail message =>
    rw [serve_fail_of_open hopen]
    simp [cutBy, failedBy, enqueue]
  | pending =>
    rw [serve_pending]
    simp [cutBy, failedBy]
  | _ =>
    change lexer.queue = _
    simp [cutBy, failedBy]

/-- Only the final item can be a reported failure, so what has been queued before it
has been published. -/
theorem queue_serveAll_eq {requests : List Request}
    (hopen : (lexer.serveAll requests).finished = false) :
    (lexer.serveAll requests).queue =
      lexer.queue ++ (lexer.pieces requests).filterMap Piece.item? := by
  have hstays {lexer : Lexer} {requests : List Request}
      (hopen : (lexer.serveAll requests).finished = false) : lexer.finished = false := by
    cases hfinished : lexer.finished with
    | false => rfl
    | true =>
      rw [(serveAll_of_finished hfinished requests).1] at hopen
      contradiction
  induction requests generalizing lexer with
  | nil => simp [serveAll, pieces]
  | cons request rest ih =>
    have hfirst : lexer.finished = false := hstays hopen
    have hnext : (lexer.serve request).finished = false := by
      apply hstays
      exact hopen
    have hfailed : lexer.failedBy request = [] := by
      cases request with
      | fail message =>
        rw [serve_fail_of_open hfirst] at hnext
        exact absurd hnext (by simp [enqueue, Item.failed, Token.isTerminal])
      | _ => rfl
    have hqueue := queue_serve_eq hfirst request
    rw [hfailed, List.append_nil] at hqueue
    rw [serveAll, List.foldl_cons]
    change ((lexer.serve request).serveAll rest).queue = _
    rw [ih hopen, hqueue, pieces, List.filterMap_append, List.append_assoc]

/-- Requests one after the other cut off their pieces one after the other. -/
theorem pieces_append (lexer : Lexer) (first second : List Request) :
    lexer.pieces (first ++ second) =
      lexer.pieces first ++ (lexer.serveAll first).pieces second := by
  induction first generalizing lexer with
  | nil => rfl
  | cons request rest ih =>
    rw [List.cons_append, pieces, pieces, ih, List.append_assoc]
    rfl

/-- Up to the request that publishes the final item, the pieces tile the text. -/
theorem Tiled.exists_final (h : lexer.Tiled text done) (htracked : lexer.Tracked size restarted)
    (hopen : lexer.finished = false) {requests : List Request}
    (hback : ¬ lexer.Overreaches restarted requests)
    (hfinished : (lexer.serveAll requests).finished = true) :
    ∃ before final after, requests = before ++ final :: after ∧
      (lexer.serveAll before).finished = false ∧
      (lexer.serveAll (before ++ [final])).finished = true ∧
      (lexer.serveAll (before ++ [final])).Tiled text
        (done ++ lexer.pieces (before ++ [final])) := by
  induction requests generalizing lexer done restarted with
  | nil =>
    rw [serveAll, List.foldl_nil, hopen] at hfinished
    contradiction
  | cons request rest ih =>
    have hnow : ¬ (request = .backup ∧ restarted = true ∧ lexer.cursor.held.isSome = true) :=
      fun hnow => hback (Or.inl hnow)
    have hserved := h.serve htracked hopen request
    cases hnext : (lexer.serve request).finished with
    | true =>
      refine ⟨[], request, rest, rfl, hopen, hnext, ?_⟩
      rw [List.nil_append, pieces, pieces, List.append_nil]
      exact hserved
    | false =>
      obtain ⟨before, final, after, hrest, hbefore, hlast, htiled⟩ :=
        ih hserved (htracked.serve request hnow) hnext (fun hlater => hback (Or.inr hlater))
          hfinished
      refine ⟨request :: before, final, after, by rw [hrest]; rfl, hbefore, hlast, ?_⟩
      rw [List.cons_append, pieces, ← List.append_assoc]
      exact htiled

/-- Whether something has been published or dropped since the last move, after one more
request. -/
def cutSince (lexer : Lexer) (cut : Bool) : Request → Bool
  | .emit _ | .ignore => true
  | .next | .peek | .accept _ | .acceptRun _ | .acceptIf _ | .acceptWhile _ => false
  | .acceptPrefix literal => cut && !(lexer.cursor.acceptPrefix literal.toList).1
  | _ => cut

/-- Every backup is made with nothing published or dropped since the last move. -/
def BacksUpInside : Lexer → Bool → List Request → Prop
  | _, _, [] => True
  | lexer, cut, request :: rest =>
    (request = .backup → cut = false) ∧
      BacksUpInside (lexer.serve request) (lexer.cutSince cut request) rest

/-- What has restarted the pending text has published or dropped something. -/
theorem cutSince_of_restartedBy {restarted cut : Bool} {request : Request}
    (hcut : restarted = true → cut = true) (h : lexer.restartedBy restarted request = true) :
    lexer.cutSince cut request = true := by
  cases request with
  | emit | ignore => rfl
  | next | backup | peek | accept | acceptRun | acceptIf | acceptWhile =>
    simp [restartedBy, restarts, moves] at h
  | acceptPrefix literal =>
    simp only [restartedBy, restarts, moves, Bool.false_eq_true, if_false] at h
    cases hanswer : (lexer.cursor.acceptPrefix literal.toList).1 with
    | true => simp [hanswer] at h
    | false =>
      have hrestarted : restarted = true := by simpa [hanswer] using h
      simp [cutSince, hanswer, hcut hrestarted]
  | _ => exact hcut h

/-- When every backup is made with nothing published or dropped since the last move, no
code point is given back from in front of the pending text. -/
theorem BacksUpInside.not_overreaches {restarted cut : Bool} {requests : List Request}
    (h : lexer.BacksUpInside cut requests) (hcut : restarted = true → cut = true) :
    ¬ lexer.Overreaches restarted requests := by
  induction requests generalizing lexer restarted cut with
  | nil => exact id
  | cons request rest ih =>
    obtain ⟨hbackup, hrest⟩ := h
    rintro (⟨hrequest, hrestarted, -⟩ | hlater)
    · have hopen := hbackup hrequest
      rw [hcut hrestarted] at hopen
      contradiction
    · exact ih hrest (cutSince_of_restartedBy hcut) hlater

/-- Items in front of the queue do not change what a request does. -/
theorem serve_queue_append (lexer : Lexer) (taken : List Item) (request : Request) :
    Lexer.serve { lexer with queue := taken ++ lexer.queue } request =
      { lexer.serve request with queue := taken ++ (lexer.serve request).queue } := by
  have hlonger {value : Bool} (h : lexer.finished = value) :
      Lexer.finished { lexer with queue := taken ++ lexer.queue } = value := h
  cases request with
  | emit token =>
    rcases Bool.eq_false_or_eq_true lexer.finished with hfinished | hopen
    · rw [serve_emit_of_finished hfinished, serve_emit_of_finished (hlonger hfinished)]
    · cases hpending : lexer.pending with
      | error cut =>
        have hsame : Lexer.pending { lexer with queue := taken ++ lexer.queue } = .error cut :=
          hpending
        rw [serve_emit_of_error hopen hpending, serve_emit_of_error (hlonger hopen) hsame]
      | ok lexeme =>
        have hsame : Lexer.pending { lexer with queue := taken ++ lexer.queue } = .ok lexeme :=
          hpending
        rw [serve_emit_of_ok hopen hpending, serve_emit_of_ok (hlonger hopen) hsame]
        simp only [enqueue, Lexer.span, List.append_assoc]
  | fail message =>
    rcases Bool.eq_false_or_eq_true lexer.finished with hfinished | hopen
    · rw [serve_fail_of_finished hfinished, serve_fail_of_finished (hlonger hfinished)]
    · rw [serve_fail_of_open hopen, serve_fail_of_open (hlonger hopen)]
      simp only [enqueue, Lexer.span, List.append_assoc]
  | pending => rw [serve_pending, serve_pending]
  | _ => rfl

/-- Nor do they change what requests do one after the other. -/
theorem serveAll_queue_append (lexer : Lexer) (taken : List Item) (requests : List Request) :
    Lexer.serveAll { lexer with queue := taken ++ lexer.queue } requests =
      { lexer.serveAll requests with queue := taken ++ (lexer.serveAll requests).queue } := by
  induction requests generalizing lexer with
  | nil => rfl
  | cons request rest ih =>
    rw [serveAll, List.foldl_cons, serve_queue_append]
    exact ih (lexer.serve request)

/-- Nothing has left the pending text of a lexer in front of a text. -/
theorem tiled_ofText (text : String) : (Lexer.ofText text).Tiled text.toList [] :=
  { text_eq := rfl
    tiling := tiling_nil text.toList }

end Lexer

namespace Scan

variable {σ : Type} {scanner : Scanner σ} {scan last : Scan σ} {count : Nat}
  {work : List (List Lexer.Request)} {items : List Item}

/-- The requests of a scan, made of a lexer from which no item is taken, lead to the
lexer of the scan with all items still in the queue. -/
theorem Reads.serveAll_eq (h : Reads scanner count scan work items last) (taken : List Item) :
    Lexer.serveAll { scan.lexer with queue := taken ++ scan.lexer.queue } work.flatten =
      { last.lexer with queue := taken ++ (items ++ last.lexer.queue) } := by
  induction h generalizing taken with
  | enough scan => rfl
  | ended moved =>
    obtain ⟨rfl, -⟩ := advance_ended_iff.mp moved
    rfl
  | @item count scan next last work item items moved rest ih =>
    obtain ⟨queue, hqueue, rfl⟩ := advance_item moved
    have hrest := ih (taken ++ [item])
    simp only [List.append_assoc, List.singleton_append] at hrest
    rw [hqueue, List.cons_append]
    exact hrest
  | @worked count scan next last work items moved rest ih =>
    obtain ⟨hqueue, -, hlexer, -⟩ := advance_worked moved
    have hrest := ih taken
    rw [hlexer, ← Lexer.serveAll_queue_append] at hrest
    rw [List.flatten_cons, Lexer.serveAll, List.foldl_append]
    exact hrest

/-- When a whole text has been scanned and no code point has been given back from in
front of the pending text, one request published the final item, and the pieces that
had left the pending text by then tile the text up to the start the lexer then had:
their spans leave no gap, each has the text of its span, and joined they are the text
up to there. The items of the sequence are those that were published, and if the scan
ended by a failure, behind them the item with its message, which begins there.

It suffices that every backup is made with nothing published or dropped since the last
move. -/
theorem pieces_tile {scanner : Scanner σ} {text : String} {state : σ}
    {work : List (List Lexer.Request)} {items : List Item} {last : Scan σ}
    (hreads : Reads scanner (items.length + 1) (ofText text state) work items last)
    (hback : ¬ (Lexer.ofText text).Overreaches false work.flatten) :
    ∃ before final after, work.flatten = before ++ final :: after ∧
      ((Lexer.ofText text).serveAll before).finished = false ∧
      ((Lexer.ofText text).serveAll (before ++ [final])).finished = true ∧
      Lexer.Tiling text.toList ((Lexer.ofText text).pieces (before ++ [final]))
        ((Lexer.ofText text).serveAll (before ++ [final])).cursor.start ∧
      (∀ message, final = .fail message → ∃ stop,
        items = ((Lexer.ofText text).pieces (before ++ [final])).filterMap Lexer.Piece.item? ++
          [⟨.failure, message,
            ⟨((Lexer.ofText text).serveAll (before ++ [final])).cursor.start, stop⟩⟩]) ∧
      ((∀ message, final ≠ .fail message) →
        items = ((Lexer.ofText text).pieces (before ++ [final])).filterMap Lexer.Piece.item?) := by
  have hover := hreads.over (Nat.lt_succ_self _)
  have hall : (Lexer.ofText text).serveAll work.flatten = { last.lexer with queue := items } := by
    have hserved := hreads.serveAll_eq []
    rw [hover.1, List.append_nil] at hserved
    exact hserved
  have hfinished : ((Lexer.ofText text).serveAll work.flatten).finished = true := by
    rw [hall]
    exact hover.2
  obtain ⟨before, final, after, hsplit, hopen, hfinal, htiled⟩ :=
    (Lexer.tiled_ofText text).exists_final (Lexer.tracked_ofText text) rfl hback hfinished
  have hitems : items = ((Lexer.ofText text).serveAll (before ++ [final])).queue := by
    have hqueue := (Lexer.serveAll_of_finished hfinal after).2
    have hjoin : ((Lexer.ofText text).serveAll (before ++ [final])).serveAll after =
        (Lexer.ofText text).serveAll work.flatten := by
      rw [hsplit]
      simp [Lexer.serveAll]
    rw [hjoin, hall] at hqueue
    exact hqueue
  have hstep : (Lexer.ofText text).serveAll (before ++ [final]) =
      ((Lexer.ofText text).serveAll before).serve final := by simp [Lexer.serveAll]
  have hqueue := Lexer.queue_serve_eq hopen final
  rw [← hstep, ← hitems, Lexer.queue_serveAll_eq hopen] at hqueue
  have hpieces : (Lexer.ofText text).pieces (before ++ [final]) =
      (Lexer.ofText text).pieces before ++ ((Lexer.ofText text).serveAll before).cutBy final := by
    rw [Lexer.pieces_append, Lexer.pieces, Lexer.pieces, List.append_nil]
  refine ⟨before, final, after, hsplit, hopen, hfinal, htiled.tiling, ?_, ?_⟩
  · rintro message rfl
    refine ⟨((Lexer.ofText text).serveAll before).cursor.position, ?_⟩
    rw [hstep, Lexer.serve_fail_of_open hopen, hpieces, List.filterMap_append]
    exact hqueue
  · intro hnone
    have hfailed : ((Lexer.ofText text).serveAll before).failedBy final = [] := by
      cases final with
      | fail message => exact absurd rfl (hnone message)
      | _ => rfl
    rw [hfailed, List.append_nil] at hqueue
    rw [hpieces, List.filterMap_append]
    exact hqueue

/-- The requests of the scan of a letter and a space. -/
def spacedWork : List (List Lexer.Request) :=
  [[.next, .next, .backup, .emit ⟨"letter"⟩], [.next, .ignore], [.next, .emit .endOfInput]]

/-- The items of the scan of a letter and a space. -/
def spacedItems : List Item := [⟨⟨"letter"⟩, "é", ⟨0, 2⟩⟩, ⟨.endOfInput, "", ⟨3, 3⟩⟩]

/-- A letter of two bytes, the space behind it and the empty end tile their text,
although a code point is given back in front of the space. -/
theorem spaced_tile :
    ∃ before final after, spacedWork.flatten = before ++ final :: after ∧
      Lexer.Tiling ['é', ' '] ((Lexer.ofText "é ").pieces (before ++ [final]))
        ((Lexer.ofText "é ").serveAll (before ++ [final])).cursor.start := by
  obtain ⟨last, hreads⟩ :
      ∃ last, Reads spaced (spacedItems.length + 1) (ofText "é " ()) spacedWork spacedItems last :=
    ⟨_, .worked (rfl : advance spaced _ = _) <| .item (rfl : advance spaced _ = _) <|
      .worked (rfl : advance spaced _ = _) <| .worked (rfl : advance spaced _ = _) <|
      .item (rfl : advance spaced _ = _) <| .ended (rfl : advance spaced _ = _)⟩
  have hinside : (Lexer.ofText "é ").BacksUpInside false spacedWork.flatten := by
    simp [spacedWork, Lexer.BacksUpInside, Lexer.cutSince]
  obtain ⟨before, final, after, hsplit, -, -, htiling, -⟩ :=
    pieces_tile hreads (hinside.not_overreaches id)
  exact ⟨before, final, after, hsplit, htiling⟩

end Scan

end LanguageKit
