import LanguageKit.Proofs.ScanReading

/-!
# The end of a sequence

The first final item finishes a lexer, and nothing is published behind it. So a
sequence that comes to an end has exactly one final item, which is its last one,
whatever the states ask for and in whatever order. Scanning a whole text reports a
failure exactly when that item is a failure.
-/

namespace LanguageKit

/-- Items with exactly one final item, which is the last of them. -/
def EndsOnce (items : List Item) : Prop :=
  ∃ front final, items = front ++ [final] ∧ final.token.isTerminal = true ∧
    ∀ item ∈ front, item.token.isTerminal = false

namespace Lexer

/-- A finished lexer publishes nothing. -/
theorem serve_emit_of_finished {lexer : Lexer} (h : lexer.finished = true) (token : Token) :
    lexer.serve (.emit token) = { lexer with log := lexer.log.push (.dropped token) } := by
  simp only [serve, perform, emit, h, if_true, Except.map]

/-- A pending text that cannot be cut out is not published. -/
theorem serve_emit_of_error {lexer : Lexer} (hopen : lexer.finished = false) {cut : CutError}
    (h : lexer.pending = .error cut) (token : Token) : lexer.serve (.emit token) = lexer := by
  simp only [serve, perform, emit, hopen, h, Bool.false_eq_true, if_false, Except.map]

/-- A lexer that is not finished publishes its pending text and starts a new one. -/
theorem serve_emit_of_ok {lexer : Lexer} (hopen : lexer.finished = false) {lexeme : String}
    (h : lexer.pending = .ok lexeme) (token : Token) :
    lexer.serve (.emit token) =
      { lexer.enqueue ⟨token, lexeme, lexer.span⟩ (.published ⟨token, lexeme, lexer.span⟩) with
        cursor := lexer.cursor.restart } := by
  simp only [serve, perform, emit, hopen, h, Bool.false_eq_true, if_false, Except.map]
  rfl

/-- A finished lexer is left alone by a failure. -/
theorem serve_fail_of_finished {lexer : Lexer} (h : lexer.finished = true) (message : String) :
    lexer.serve (.fail message) = lexer := by
  simp only [serve, perform, fail, h, if_true]

/-- A lexer that is not finished publishes a failure. -/
theorem serve_fail_of_open {lexer : Lexer} (h : lexer.finished = false) (message : String) :
    lexer.serve (.fail message) =
      lexer.enqueue (Item.failed message lexer.span)
        (.failed (Item.failed message lexer.span)) := by
  simp only [serve, perform, fail, h, Bool.false_eq_true, if_false]

/-- A request for the pending text leaves the lexer alone, whatever comes of it. -/
theorem serve_pending (lexer : Lexer) : lexer.serve .pending = lexer := by
  unfold serve perform
  cases lexer.pending <;> rfl

/-- A request leaves the queue alone, or it queues one item, which finishes the
lexer if it is final. A finished lexer queues nothing. -/
theorem queue_serve (lexer : Lexer) (request : Request) :
    (lexer.serve request).queue = lexer.queue ∧
        (lexer.serve request).finished = lexer.finished ∨
      lexer.finished = false ∧ ∃ item, (lexer.serve request).queue = lexer.queue ++ [item] ∧
        (lexer.serve request).finished = item.token.isTerminal := by
  cases request with
  | emit token =>
    cases hfinished : lexer.finished with
    | true =>
      rw [serve_emit_of_finished hfinished]
      exact Or.inl ⟨rfl, hfinished⟩
    | false =>
      cases hpending : lexer.pending with
      | error cut =>
        rw [serve_emit_of_error hfinished hpending]
        exact Or.inl ⟨rfl, hfinished⟩
      | ok lexeme =>
        rw [serve_emit_of_ok hfinished hpending]
        exact Or.inr ⟨rfl, ⟨token, lexeme, lexer.span⟩, rfl, rfl⟩
  | fail message =>
    cases hfinished : lexer.finished with
    | true =>
      rw [serve_fail_of_finished hfinished]
      exact Or.inl ⟨rfl, hfinished⟩
    | false =>
      rw [serve_fail_of_open hfinished]
      exact Or.inr ⟨rfl, Item.failed message lexer.span, rfl, rfl⟩
  | pending =>
    rw [serve_pending]
    exact Or.inl ⟨rfl, rfl⟩
  | _ => exact Or.inl ⟨rfl, rfl⟩

/-- The items taken from a lexer and those in its queue, in this order, have a
final item only at the end, and have one there exactly when the lexer is finished. -/
structure Sealed (lexer : Lexer) (taken : List Item) : Prop where
  /-- A lexer that is not finished has published no final item. -/
  pending : lexer.finished = false →
    ∀ item ∈ taken ++ lexer.queue, item.token.isTerminal = false
  /-- A finished lexer has published one, behind all others. -/
  final : lexer.finished = true → EndsOnce (taken ++ lexer.queue)

variable {lexer : Lexer} {taken : List Item}

/-- A request keeps the final item at the end. -/
theorem Sealed.serve (h : lexer.Sealed taken) (request : Request) :
    (lexer.serve request).Sealed taken := by
  obtain ⟨hqueue, hfinished⟩ | ⟨hopen, item, hqueue, hfinished⟩ := lexer.queue_serve request
  · exact
      { pending := fun hlater => by
          rw [hqueue]
          exact h.pending (hfinished ▸ hlater)
        final := fun hlater => by
          rw [hqueue]
          exact h.final (hfinished ▸ hlater) }
  · have hbefore := h.pending hopen
    refine ⟨fun hlater => ?_, fun hlater => ?_⟩
    · rw [hfinished] at hlater
      rw [hqueue, ← List.append_assoc]
      intro other hother
      rcases List.mem_append.mp hother with hother | hother
      · exact hbefore other hother
      · rwa [List.mem_singleton.mp hother]
    · rw [hfinished] at hlater
      rw [hqueue, ← List.append_assoc]
      exact ⟨taken ++ lexer.queue, item, rfl, hlater, hbefore⟩

/-- Requests keep the final item at the end, one after the other. -/
theorem Sealed.serveAll (h : lexer.Sealed taken) (requests : List Request) :
    (lexer.serveAll requests).Sealed taken := by
  induction requests generalizing lexer with
  | nil => exact h
  | cons request rest ih => exact ih (h.serve request)

/-- A lexer in front of a text has published nothing. -/
theorem sealed_ofText (text : String) : (Lexer.ofText text).Sealed [] :=
  ⟨fun _ _ hitem => (nomatch hitem), fun hfinished => (nomatch hfinished)⟩

end Lexer

namespace Scan

variable {σ : Type} {scanner : Scanner σ} {scan last : Scan σ} {count : Nat}
  {work : List (List Lexer.Request)} {items taken : List Item}

/-- What is read is added to what has been taken. -/
theorem Reads.sealed (h : Reads scanner count scan work items last)
    (hsealed : scan.lexer.Sealed taken) : last.lexer.Sealed (taken ++ items) := by
  induction h generalizing taken with
  | enough scan => rwa [List.append_nil]
  | ended moved =>
    obtain ⟨rfl, -⟩ := advance_ended_iff.mp moved
    rwa [List.append_nil]
  | @item count scan next last work item items moved rest ih =>
    obtain ⟨queue, hqueue, rfl⟩ := advance_item moved
    have hshift : taken ++ scan.lexer.queue = taken ++ [item] ++ queue := by
      rw [hqueue, List.append_assoc, List.singleton_append]
    have hnext : Lexer.Sealed { scan.lexer with queue } (taken ++ [item]) :=
      { pending := fun hopen => hshift ▸ hsealed.pending hopen
        final := fun hfinished => hshift ▸ hsealed.final hfinished }
    have hlast := ih hnext
    rwa [List.append_assoc, List.singleton_append] at hlast
  | worked moved rest ih =>
    obtain ⟨-, -, hlexer, -⟩ := advance_worked moved
    exact ih (hlexer ▸ hsealed.serveAll _)

/-- A whole sequence ends with its only final item. -/
theorem Reads.endsOnce (h : Reads scanner count scan work items last)
    (hsealed : scan.lexer.Sealed []) (hover : last.Over) : EndsOnce items := by
  have hlast := (h.sealed hsealed).final hover.2
  rwa [hover.1, List.nil_append, List.append_nil] at hlast

/-- The final item that has been read is the last one, and the sequence is over. -/
theorem Reads.over_of_final {front : List Item} {final : Item}
    (h : Reads scanner count scan work (front ++ [final]) last) (hsealed : scan.lexer.Sealed [])
    (hfinal : final.token.isTerminal = true) : last.Over := by
  have hlast := h.sealed hsealed
  rw [List.nil_append] at hlast
  have hmem : final ∈ front ++ [final] ++ last.lexer.queue := by simp
  have hfinished : last.lexer.finished = true := by
    cases hopen : last.lexer.finished with
    | true => rfl
    | false =>
      rw [hlast.pending hopen final hmem] at hfinal
      contradiction
  obtain ⟨items, other, heq, -, hitems⟩ := hlast.final hfinished
  refine ⟨?_, hfinished⟩
  -- an item behind the final one would leave the final one among the others
  rcases List.eq_nil_or_concat last.lexer.queue with hnil | ⟨queue, item, hqueue⟩
  · exact hnil
  · rw [hqueue, List.concat_eq_append, ← List.append_assoc] at heq
    obtain ⟨rfl, -⟩ := List.append_inj' heq rfl
    have hother := hitems final (by simp)
    rw [hother] at hfinal
    contradiction

/-- A failure is a final item. -/
theorem isTerminal_of_isFailure {item : Item} (h : item.isFailure = true) :
    item.token.isTerminal = true :=
  (Token.isTerminal_iff _).mpr (Or.inr (of_decide_eq_true h))

/-- Collecting a sequence without a failure brings its items. -/
theorem Reads.collect (h : Reads scanner count scan work items last)
    (hshort : items.length < count) (hitems : ∀ item ∈ items, item.isFailure = false)
    (before : Array Item) :
    ∃ budget, scan.collect scanner budget before = (.items (before.toList ++ items), last) := by
  induction h generalizing before with
  | enough => exact absurd hshort (Nat.lt_irrefl 0)
  | ended moved => exact ⟨1, by rw [Scan.collect, moved, List.append_nil]⟩
  | @item count scan next last work item items moved rest ih =>
    obtain ⟨budget, hbudget⟩ := ih (Nat.lt_of_succ_lt_succ hshort)
      (fun other hother => hitems other (List.mem_cons_of_mem item hother)) (before.push item)
    refine ⟨budget + 1, ?_⟩
    rw [Scan.collect, moved]
    dsimp only
    rw [if_neg (by simp [hitems item List.mem_cons_self]), hbudget]
    simp
  | worked moved rest ih =>
    obtain ⟨budget, hbudget⟩ := ih hshort hitems before
    refine ⟨budget + 1, ?_⟩
    rw [Scan.collect, moved]
    exact hbudget

/-- Collecting a sequence stops at its first failure, which is reported. -/
theorem Reads.collect_failed {front : List Item} {final : Item}
    (h : Reads scanner count scan work items last) (hitems : items = front ++ [final])
    (hfront : ∀ item ∈ front, item.isFailure = false) (hfinal : final.isFailure = true)
    (before : Array Item) :
    ∃ budget after, scan.collect scanner budget before = (.failed (.ofFailure final), after) := by
  induction h generalizing before front with
  | enough => simp at hitems
  | ended => simp at hitems
  | @item count scan next last work item items moved rest ih =>
    cases front with
    | nil =>
      obtain ⟨rfl, rfl⟩ := List.cons.inj hitems
      refine ⟨1, next, ?_⟩
      rw [Scan.collect, moved]
      dsimp only
      rw [if_pos hfinal]
    | cons first front =>
      obtain ⟨rfl, htail⟩ := List.cons.inj hitems
      obtain ⟨budget, after, hbudget⟩ := ih htail
        (fun other hother => hfront other (List.mem_cons_of_mem item hother)) (before.push item)
      refine ⟨budget + 1, after, ?_⟩
      rw [Scan.collect, moved]
      dsimp only
      rw [if_neg (by simp [hfront item List.mem_cons_self]), hbudget]
  | worked moved rest ih =>
    obtain ⟨budget, after, hbudget⟩ := ih hitems hfront before
    refine ⟨budget + 1, after, ?_⟩
    rw [Scan.collect, moved]
    exact hbudget

/-- What has been collected has been read, and no item of it is a failure. -/
theorem reads_of_collect {budget : Nat} {before : Array Item} {all : List Item}
    (h : scan.collect scanner budget before = (.items all, last)) :
    ∃ work items, Reads scanner (items.length + 1) scan work items last ∧
      all = before.toList ++ items ∧ ∀ item ∈ items, item.isFailure = false := by
  induction budget generalizing scan before with
  | zero => cases h
  | succ budget ih =>
    unfold Scan.collect at h
    split at h
    · rename_i item next moved
      split at h
      · cases h
      · rename_i hitem
        obtain ⟨work, items, hreads, hall, hitems⟩ := ih h
        refine ⟨work, item :: items, .item moved hreads, by simp [hall], ?_⟩
        intro other hother
        rcases List.mem_cons.mp hother with rfl | hother
        · simpa using hitem
        · exact hitems other hother
    · rename_i moved
      cases h
      exact ⟨[], [], .ended moved, by simp, by simp⟩
    · cases h
    · rename_i moved
      obtain ⟨work, items, hreads, hall, hitems⟩ := ih h
      exact ⟨_, items, .worked moved hreads, hall, hitems⟩

/-- A failure that is reported has been read behind items that are none. -/
theorem reads_of_collect_failed {budget : Nat} {before : Array Item} {report : Diagnostic}
    (h : scan.collect scanner budget before = (.failed report, last)) :
    ∃ work front final, Reads scanner (front.length + 1) scan work (front ++ [final]) last ∧
      final.isFailure = true ∧ report = .ofFailure final := by
  induction budget generalizing scan before with
  | zero => cases h
  | succ budget ih =>
    unfold Scan.collect at h
    split at h
    · rename_i item next moved
      split at h
      · rename_i hitem
        cases h
        exact ⟨[], [], item, .item moved (.enough _), hitem, rfl⟩
      · obtain ⟨work, front, final, hreads, hfinal⟩ := ih h
        exact ⟨work, item :: front, final, .item moved hreads, hfinal⟩
    · cases h
    · cases h
    · rename_i moved
      obtain ⟨work, front, final, hreads, hfinal⟩ := ih h
      exact ⟨_, front, final, .worked moved hreads, hfinal⟩

/-- The items in front of the final one are no failures. -/
theorem EndsOnce.front {front : List Item} {final : Item} (h : EndsOnce (front ++ [final])) :
    ∀ item ∈ front, item.isFailure = false := by
  obtain ⟨others, other, heq, -, hothers⟩ := h
  obtain ⟨rfl, -⟩ := List.append_inj' heq rfl
  intro item hitem
  have hopen := hothers item hitem
  cases hfailure : item.isFailure with
  | false => rfl
  | true =>
    rw [isTerminal_of_isFailure hfailure] at hopen
    contradiction

/-- A sequence that comes to an end, from whatever requests have been made of the
lexer before, has exactly one final item, which is the last; pulling behind it
brings nothing and runs no state. Scanning a whole text fails exactly when that
item is a failure, with its message at its place, and brings the sequence
otherwise. -/
theorem sequence_ends_once (scanner : Scanner σ) (text : String) (state : σ) :
    (∀ requests items last,
      Yields scanner (ofLexer ((Lexer.ofText text).serveAll requests) state) items last →
        EndsOnce items ∧ ∀ budget, last.pull scanner (budget + 1) = (.ended, last)) ∧
      (∀ report, (∃ budget last, ofWholeText scanner budget text state = (.failed report, last)) ↔
        ∃ front final last, Yields scanner (ofText text state) (front ++ [final]) last ∧
          final.token = .failure ∧
          report = { stage := .lexer, message := final.lexeme, span := some final.span }) ∧
      ∀ items, (∃ budget last, ofWholeText scanner budget text state = (.items items, last)) ↔
        ∃ front final last, Yields scanner (ofText text state) (front ++ [final]) last ∧
          final.token ≠ .failure ∧ items = front ++ [final] := by
  have hfresh : (ofText text state).lexer.Sealed [] := Lexer.sealed_ofText text
  refine ⟨fun requests items last hyields => ?_, fun report => ⟨?_, ?_⟩, fun items => ⟨?_, ?_⟩⟩
  · obtain ⟨work, hreads⟩ := hyields.reads
    have hover := hreads.over (Nat.lt_succ_self _)
    exact ⟨hreads.endsOnce ((Lexer.sealed_ofText text).serveAll requests) hover, hover.pull⟩
  · rintro ⟨budget, last, hcollect⟩
    obtain ⟨work, front, final, hreads, hfinal, rfl⟩ := reads_of_collect_failed hcollect
    have hover := hreads.over_of_final hfresh (isTerminal_of_isFailure hfinal)
    have hyields := (hreads.succ hover).pulls
    refine ⟨front, final, last, ?_, of_decide_eq_true hfinal, rfl⟩
    rwa [Yields, List.length_append]
  · rintro ⟨front, final, last, hyields, hfinal, rfl⟩
    obtain ⟨work, hreads⟩ := hyields.reads
    have hends := hreads.endsOnce hfresh (hreads.over (Nat.lt_succ_self _))
    exact hreads.collect_failed rfl (EndsOnce.front hends) (decide_eq_true hfinal) #[]
  · rintro ⟨budget, last, hcollect⟩
    obtain ⟨work, found, hreads, hfound, hitems⟩ := reads_of_collect hcollect
    obtain ⟨front, final, rfl, -, -⟩ := hreads.endsOnce hfresh (hreads.over (Nat.lt_succ_self _))
    refine ⟨front, final, last, hreads.pulls, ?_, hfound⟩
    exact of_decide_eq_false (hitems final (by simp))
  · rintro ⟨front, final, last, hyields, hfinal, rfl⟩
    obtain ⟨work, hreads⟩ := hyields.reads
    have hends := hreads.endsOnce hfresh (hreads.over (Nat.lt_succ_self _))
    have hitems : ∀ item ∈ front ++ [final], item.isFailure = false := by
      intro item hitem
      rcases List.mem_append.mp hitem with hitem | hitem
      · exact EndsOnce.front hends item hitem
      · rw [List.mem_singleton.mp hitem]
        exact decide_eq_false hfinal
    obtain ⟨budget, hcollect⟩ := hreads.collect (Nat.lt_succ_self _) hitems #[]
    exact ⟨budget, last, by rw [ofWholeText, hcollect]; rfl⟩

/-- A state that publishes behind the final item and asks to be run again. -/
def stubborn : Scanner Unit := fun _ =>
  .ask .next fun _ => .ask (.emit .endOfInput) fun _ =>
    .ask .next fun _ => .ask (.emit ⟨"a"⟩) fun _ => .stop (some ())

/-- Nothing follows the final item of a stubborn state, also behind an item that was
published before the scan began. -/
theorem stubborn_ends_once :
    EndsOnce [⟨⟨"b"⟩, "a", ⟨0, 1⟩⟩, ⟨.endOfInput, "b", ⟨1, 2⟩⟩] := by
  have hyields : Yields stubborn
      (ofLexer ((Lexer.ofText "abcd").serveAll [.next, .emit ⟨"b"⟩]) ())
      [⟨⟨"b"⟩, "a", ⟨0, 1⟩⟩, ⟨.endOfInput, "b", ⟨1, 2⟩⟩] _ :=
    .item (rfl : pull stubborn 1 _ = _) (.item (rfl : pull stubborn 2 _ = _)
      (.ended (rfl : pull stubborn 1 _ = _)))
  exact ((sequence_ends_once stubborn "abcd" ()).1 _ _ _ hyields).1

end Scan

end LanguageKit
