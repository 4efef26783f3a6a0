import LanguageKit.Proofs.PatchResolution

/-!
# Labels of another builder

Two builders are used in turns. A label is a number to them, so that a label one of them has
made can be handed to the other, which takes it for the label of its own that has the same
number, if there is one. It is noticed where there is none, and where it is mixed up with one
that is bound already. All else that is given to the wrong builder goes through.
-/

namespace LanguageKit.Builder

/-- One of two builders. -/
inductive Side where
  /-- The first one. -/
  | first
  /-- The second one. -/
  | second
  deriving DecidableEq

/-- A label, and the builder that has made it. -/
structure Handle where
  /-- The builder that has made the label. -/
  maker : Side
  /-- The label. -/
  label : Label
  deriving DecidableEq

/-- The label of an operand, if it is one. -/
def Operand.label? : Operand → Option Label
  | .word _ => none
  | .label label => some label

/-- The labels that a call names: the one it binds, or those among its operands. -/
def Call.labels : Call → List Label
  | .bind label => [label]
  | call => (call.instruction?.toList.flatMap Prod.snd).filterMap Operand.label?

/-- A call of one of two builders. -/
structure Turn where
  /-- The builder that is called. -/
  side : Side
  /-- The call. -/
  call : Call
  /-- Where the labels come from that the call names, in order. -/
  handles : List Handle
  /-- They are the labels of the call. -/
  handles_label : handles.map Handle.label = call.labels := by rfl

/-- The call names a label that the builder which is called has not made. -/
def Turn.Foreign (turn : Turn) : Prop := ∃ handle ∈ turn.handles, handle.maker ≠ turn.side

/-- Calls the builder whose turn it is. -/
def Turn.take (builders : Side → Builder) (turn : Turn) : Side → Builder :=
  Function.update builders turn.side ((builders turn.side).call turn.call)

/-- Two new builders after turns. -/
def takeAll (turns : List Turn) : Side → Builder := turns.foldl Turn.take fun _ => {}

/-- The calls of one builder, in order. -/
def callsOf (side : Side) (turns : List Turn) : List Call :=
  (turns.filter fun turn => turn.side = side).map Turn.call

/-- One of the calls has returned a label. -/
def Returned (calls : List Call) (label : Label) : Prop :=
  Happens (fun before call => call = .newLabel ∧ (callAll {} before).newLabel.1 = label) calls

/-- Every label that is used has been returned before by the builder that is its maker. -/
def Obtained (turns : List Turn) : Prop :=
  ∀ before turn after, turns = before ++ turn :: after →
    ∀ handle ∈ turn.handles, Returned (callsOf handle.maker before) handle.label

/-- Nothing is noticed of the labels that a builder is given, whoever has made them. -/
structure Unnoticed (side : Side) (turns : List Turn) : Prop where
  /-- Every instruction has the right number of operands. -/
  counts : ∀ turn ∈ turns, turn.side = side → ∀ opcode operands,
    turn.call.instruction? = some (opcode, operands) → operands.length = opcode.operandCount
  /-- When a foreign label is bound, the builder has returned a label with its number, too. -/
  returned : ∀ before turn after label, turns = before ++ turn :: after → turn.side = side →
    turn.call = .bind label → turn.Foreign → Returned (callsOf side before) label
  /-- When a label is bound, none with its number has been bound before. -/
  unbound : ∀ before turn after label, turns = before ++ turn :: after → turn.side = side →
    turn.call = .bind label → ¬ Bound (callsOf side before) label
  /-- For every label among the operands, one with its number is bound to an address that fits
  into a word. -/
  reachable : ∀ turn ∈ turns, turn.side = side → ∀ opcode operands,
    turn.call.instruction? = some (opcode, operands) → ∀ label, .label label ∈ operands →
      Reachable (callsOf side turns) label

section Sides

variable {side : Side} {turns : List Turn}

/-- With one more turn, the builder whose turn it is has one more call. -/
theorem callsOf_snoc (side : Side) (turns : List Turn) (turn : Turn) :
    callsOf side (turns ++ [turn]) =
      callsOf side turns ++ if turn.side = side then [turn.call] else [] := by
  unfold callsOf
  rw [List.filter_append, List.map_append]
  by_cases h : turn.side = side <;> simp [h]

/-- Each builder is what its own calls have made of it. -/
theorem takeAll_eq_callAll (turns : List Turn) (side : Side) :
    takeAll turns side = callAll {} (callsOf side turns) := by
  induction turns using List.reverseRecOn with
  | nil => rfl
  | append_singleton turns turn ih =>
    have htake : takeAll (turns ++ [turn]) = turn.take (takeAll turns) := List.foldl_concat ..
    rw [htake, Turn.take, callsOf_snoc]
    by_cases h : turn.side = side
    · subst h
      rw [Function.update_self, if_pos rfl, ih, callAll_snoc]
    · rw [Function.update_of_ne (Ne.symm h), if_neg h, List.append_nil, ih]

/-- What happens at the calls of one builder happens at its turns. -/
theorem happens_callsOf_iff {event : List Call → Call → Prop} :
    Happens event (callsOf side turns) ↔ ∃ before turn after, turns = before ++ turn :: after ∧
      turn.side = side ∧ event (callsOf side before) turn.call := by
  constructor
  · rintro ⟨before, call, after, hsplit, hevent⟩
    obtain ⟨front, back, hfilter, rfl, hback⟩ := List.map_eq_append_iff.mp hsplit
    obtain ⟨turn, rest, rfl, rfl, -⟩ := List.map_eq_cons_iff.mp hback
    obtain ⟨earlier, later, rfl, rfl, hlater⟩ := List.filter_eq_append_iff.mp hfilter
    obtain ⟨skipped, behind, rfl, hskipped, hside, -⟩ := List.filter_eq_cons_iff.mp hlater
    refine ⟨earlier ++ skipped, turn, behind, by simp, by simpa using hside, ?_⟩
    have hnone : skipped.filter (fun turn => turn.side = side) = [] :=
      List.filter_eq_nil_iff.mpr hskipped
    rwa [callsOf, List.filter_append, hnone, List.append_nil]
  · rintro ⟨before, turn, after, rfl, hside, hevent⟩
    refine ⟨callsOf side before, turn.call, callsOf side after, ?_, hevent⟩
    simp [callsOf, hside]

/-- The labels that calls have returned are those whose numbers are smaller than how many have
been made. -/
theorem returned_iff {calls : List Call} {label : Label} :
    Returned calls label ↔ label.number < labelsMade calls := by
  induction calls using List.reverseRecOn with
  | nil => exact iff_of_false not_happens_nil (Nat.not_lt_zero _)
  | append_singleton calls call ih =>
    have hmade : labelsMade (calls ++ [call]) =
        labelsMade calls + if call = .newLabel then 1 else 0 := by
      unfold labelsMade
      rw [List.count_append, List.count_singleton]
      simp only [beq_iff_eq]
    have hlabel : (callAll {} calls).newLabel.1 = ⟨labelsMade calls⟩ :=
      congrArg Label.mk (size_labels_callAll calls)
    rw [Returned, happens_snoc, ← Returned, ih, hmade, hlabel]
    by_cases hcall : call = .newLabel
    · have hsame : (⟨labelsMade calls⟩ : Label) = label ↔ labelsMade calls = label.number :=
        ⟨fun h => h ▸ rfl, fun h => by rw [h]⟩
      simp only [hcall, true_and, if_true, hsame]
      omega
    · simp [hcall]

/-- The labels that wait for an address are those among the operands of complete
instructions. -/
theorem label_mem_emitted_iff {calls : List Call} {label : Label} :
    .label label ∈ emitted calls ↔ ∃ call ∈ calls, ∃ opcode operands,
      call.instruction? = some (opcode, operands) ∧ operands.length = opcode.operandCount ∧
        .label label ∈ operands := by
  simp only [emitted, slots, Call.added, List.mem_flatMap, List.mem_cons, Option.mem_toList,
    Option.filter_eq_some_iff, decide_eq_true_eq, reduceCtorEq, false_or,
    Prod.exists]
  constructor
  · rintro ⟨opcode, operands, ⟨call, hcall, hasked, hcount⟩, hlabel⟩
    exact ⟨call, hcall, opcode, operands, hasked, hcount, hlabel⟩
  · rintro ⟨call, hcall, opcode, operands, hasked, hcount, hlabel⟩
    exact ⟨opcode, operands, ⟨call, hcall, hasked, hcount⟩, hlabel⟩

/-- A label that is not bound to an address that fits into a word cannot be resolved. -/
theorem exists_resolveSlot_eq_error {calls : List Call} {label : Label}
    (h : ¬ Reachable calls label) :
    ∃ mistake, (callAll {} calls).resolveSlot (.label label) = .error mistake := by
  by_cases hbound : Bound calls label
  · obtain ⟨address, haddress⟩ := exists_boundAt_iff.mpr hbound
    refine ⟨.tooLong, (resolveSlot_of_boundAt haddress).trans (if_neg fun hfits => ?_)⟩
    exact h ⟨address, haddress, hfits⟩
  · exact ⟨_, resolveSlot_of_not_bound hbound⟩

/-- Without a mistake, the first label that cannot be resolved is what is reported. -/
theorem exists_finish_eq_error {calls : List Call} (hflawless : Flawless calls) {label : Label}
    (hlabel : .label label ∈ emitted calls) (hfar : ¬ Reachable calls label) :
    ∃ mistake, (callAll {} calls).finish = .error mistake := by
  have hslot : ∃ slot ∈ emitted calls, ¬ ∀ label, slot = .label label → Reachable calls label :=
    ⟨.label label, hlabel, fun h => hfar (h label rfl)⟩
  obtain ⟨before, slot, after, hsplit, hbefore, hslot⟩ := exists_first hslot
  push Not at hslot
  obtain ⟨first, rfl, hfirst⟩ := hslot
  obtain ⟨mistake, hmistake⟩ := exists_resolveSlot_eq_error hfirst
  exact ⟨mistake, finish_of_unresolved hflawless hsplit
    (fun earlier hmem => hbefore _ hmem earlier rfl) hmistake⟩

/-- There is a program exactly when no call is a mistake and every label that waits for an
address is bound to one that fits into a word. -/
theorem exists_code_iff {calls : List Call} :
    (∃ code, (callAll {} calls).finish = .ok code) ↔
      Flawless calls ∧ ∀ label, .label label ∈ emitted calls → Reachable calls label := by
  constructor
  · rintro ⟨code, hcode⟩
    have hflawless : Flawless calls := by
      rw [← error_eq_none_iff]
      cases herror : (callAll {} calls).error with
      | none => rfl
      | some mistake =>
        rw [finish, herror] at hcode
        cases hcode
    refine ⟨hflawless, fun label hlabel => ?_⟩
    by_contra hfar
    obtain ⟨mistake, hmistake⟩ := exists_finish_eq_error hflawless hlabel hfar
    cases hmistake.symm.trans hcode
  · rintro ⟨hflawless, hreachable⟩
    obtain ⟨code, hcode, -⟩ := exists_finish hflawless hreachable
    exact ⟨code, hcode⟩

/-- A label that the builder has been given by nobody else is one it has returned. -/
theorem Obtained.returned_of_not_foreign (h : Obtained turns) {before after : List Turn}
    {turn : Turn} (hsplit : turns = before ++ turn :: after) (hside : turn.side = side)
    {label : Label} (hbind : turn.call = .bind label) (hown : ¬ turn.Foreign) :
    Returned (callsOf side before) label := by
  have hlabels : turn.handles.map Handle.label = [label] := by
    rw [turn.handles_label, hbind]
    rfl
  obtain ⟨handle, hhandles, rfl⟩ := List.map_eq_singleton_iff.mp hlabels
  have hmem : handle ∈ turn.handles := by rw [hhandles]; exact List.mem_singleton_self handle
  have hmaker : handle.maker = turn.side := by
    by_contra hother
    exact hown ⟨handle, hmem, hother⟩
  rw [← hside, ← hmaker]
  exact h before turn after hsplit handle hmem

/-- The calls of a builder are without a mistake when none of its turns is one. -/
theorem flawless_callsOf_iff :
    Flawless (callsOf side turns) ↔ ∀ before turn after, turns = before ++ turn :: after →
      turn.side = side → ∀ mistake, ¬ Mistake (callsOf side before) turn.call mistake := by
  rw [Flawless, happens_callsOf_iff]
  push Not
  rfl

/-- Where nothing is noticed, no call of the builder is a mistake. -/
theorem Unnoticed.flawless (hnothing : Unnoticed side turns) (h : Obtained turns) :
    Flawless (callsOf side turns) := by
  refine flawless_callsOf_iff.mpr fun before turn after hsplit hside mistake hmistake => ?_
  have hturn : turn ∈ turns := by rw [hsplit]; simp
  generalize hcall : turn.call = call at hmistake
  cases hmistake with
  | operandCount call opcode operands hasked hcount =>
    rw [← hcall] at hasked
    exact hcount (hnothing.counts turn hturn hside opcode operands hasked)
  | boundTwice label hbound =>
    exact hnothing.unbound before turn after label hsplit hside hcall hbound
  | foreign label hunmade =>
    have hreturned : Returned (callsOf side before) label := by
      by_cases hforeign : turn.Foreign
      · exact hnothing.returned before turn after label hsplit hside hcall hforeign
      · exact h.returned_of_not_foreign hsplit hside hcall hforeign
    exact absurd (returned_iff.mp hreturned) (Nat.not_lt_of_le hunmade)

/-- The calls of a builder are those of its turns. -/
theorem mem_callsOf_iff {call : Call} :
    call ∈ callsOf side turns ↔ ∃ turn ∈ turns, turn.side = side ∧ turn.call = call := by
  simp [callsOf, and_assoc]

/-- Nothing is noticed where no call of the builder is a mistake, and every label that waits
for an address is bound to one that fits into a word. -/
theorem unnoticed_of_flawless (hflawless : Flawless (callsOf side turns))
    (hreachable : ∀ label, .label label ∈ emitted (callsOf side turns) →
      Reachable (callsOf side turns) label) : Unnoticed side turns := by
  have hnone := flawless_callsOf_iff.mp hflawless
  have hcounts : ∀ turn ∈ turns, turn.side = side → ∀ opcode operands,
      turn.call.instruction? = some (opcode, operands) →
        operands.length = opcode.operandCount := by
    intro turn hturn hside opcode operands hasked
    obtain ⟨before, after, hsplit⟩ := List.append_of_mem hturn
    by_contra hcount
    exact hnone before turn after hsplit hside _
      (.operandCount turn.call opcode operands hasked hcount)
  refine ⟨hcounts, ?_, ?_, ?_⟩
  · intro before turn after label hsplit hside hcall _
    rw [returned_iff]
    by_contra hunmade
    refine hnone before turn after hsplit hside (.foreign label) ?_
    rw [hcall]
    exact .foreign label (Nat.le_of_not_lt hunmade)
  · intro before turn after label hsplit hside hcall hbound
    refine hnone before turn after hsplit hside (.boundTwice label) ?_
    rw [hcall]
    exact .boundTwice label hbound
  · intro turn hturn hside opcode operands hasked label hmem
    have hcount := hcounts turn hturn hside opcode operands hasked
    exact hreachable label (label_mem_emitted_iff.mpr
      ⟨turn.call, mem_callsOf_iff.mpr ⟨turn, hturn, hside, rfl⟩, opcode, operands, hasked, hcount,
        hmem⟩)

/-- A builder finishes a program exactly when nothing is noticed of the labels it is given. -/
theorem Obtained.exists_code_iff (h : Obtained turns) (side : Side) :
    (∃ code, (takeAll turns side).finish = .ok code) ↔ Unnoticed side turns := by
  rw [takeAll_eq_callAll, Builder.exists_code_iff]
  constructor
  · rintro ⟨hflawless, hreachable⟩
    exact unnoticed_of_flawless hflawless hreachable
  · intro hnothing
    refine ⟨hnothing.flawless h, fun label hlabel => ?_⟩
    obtain ⟨call, hcall, opcode, operands, hasked, -, hmem⟩ := label_mem_emitted_iff.mp hlabel
    obtain ⟨turn, hturn, hside, rfl⟩ := mem_callsOf_iff.mp hcall
    exact hnothing.reachable turn hturn hside opcode operands hasked label hmem

/-- A label that has been bound has the number of one that has been returned. -/
theorem Bound.returned {calls : List Call} {label : Label} (h : Bound calls label) :
    Returned calls label := by
  obtain ⟨before, call, after, rfl, -, hmade⟩ := h
  rw [returned_iff]
  refine Nat.lt_of_lt_of_le hmade ?_
  unfold labelsMade
  rw [List.count_append]
  exact Nat.le_add_right _ _

/-- Without turns nothing is used. -/
theorem obtained_nil : Obtained [] := fun before turn after h => by simp at h

/-- One more turn uses labels that have been returned before. -/
theorem Obtained.snoc (h : Obtained turns) {turn : Turn}
    (hturn : ∀ handle ∈ turn.handles,
      handle.label.number < labelsMade (callsOf handle.maker turns)) :
    Obtained (turns ++ [turn]) := by
  intro before other after hsplit handle hhandle
  rcases eq_or_exists_of_snoc_eq hsplit with ⟨rfl, rfl⟩ | ⟨rest, rfl⟩
  · exact returned_iff.mpr (hturn handle hhandle)
  · exact h before other rest rfl handle hhandle

end Sides

/-- A builder finishes no program exactly when something is noticed of the labels it is given,
whoever has made them. Something is noticed whenever it binds a label whose number it has not
returned, and this is reported if there has been no mistake before; and whenever an operand is
a label whose number it never returns. -/
theorem rejects_iff_not_unnoticed {turns : List Turn} (h : Obtained turns) (side : Side) :
    ((∃ mistake, (takeAll turns side).finish = .error mistake) ↔ ¬ Unnoticed side turns) ∧
    (∀ before turn after label, turns = before ++ turn :: after → turn.side = side →
      turn.call = .bind label → ¬ Returned (callsOf side before) label →
        (∃ mistake, (takeAll turns side).finish = .error mistake) ∧
        (Flawless (callsOf side before) →
          (takeAll turns side).finish = .error (.foreign label))) ∧
    ∀ turn ∈ turns, turn.side = side → ∀ opcode operands,
      turn.call.instruction? = some (opcode, operands) → ∀ label, .label label ∈ operands →
        ¬ Returned (callsOf side turns) label →
          ∃ mistake, (takeAll turns side).finish = .error mistake := by
  have hrejects : (∃ mistake, (takeAll turns side).finish = .error mistake) ↔
      ¬ Unnoticed side turns := by
    rw [← h.exists_code_iff]
    cases (takeAll turns side).finish <;> simp
  refine ⟨hrejects, fun before turn after label hsplit hside hcall hunknown => ?_, ?_⟩
  · have hmistake : Mistake (callsOf side before) turn.call (.foreign label) := by
      rw [hcall]
      exact .foreign label (Nat.le_of_not_lt fun hmade => hunknown (returned_iff.mpr hmade))
    refine ⟨hrejects.mpr fun hnothing => ?_, fun hflawless => ?_⟩
    · exact flawless_callsOf_iff.mp (hnothing.flawless h) before turn after hsplit hside _ hmistake
    · have hfirst : FirstMistake (callsOf side turns) (.foreign label) :=
        happens_callsOf_iff.mpr ⟨before, turn, after, hsplit, hside, hflawless, hmistake⟩
      rw [takeAll_eq_callAll, finish, (error_callAll _ _).mpr hfirst]
  · intro turn hturn hside opcode operands hasked label hmem hunknown
    refine hrejects.mpr fun hnothing => hunknown ?_
    obtain ⟨address, hbound, -⟩ :=
      hnothing.reachable turn hturn hside opcode operands hasked label hmem
    exact (exists_boundAt_iff.mp ⟨address, hbound⟩).returned

/-- The second builder makes two labels, and the first one binds the second of them. -/
def strayLabel : List Turn :=
  [⟨.second, .newLabel, [], rfl⟩, ⟨.second, .newLabel, [], rfl⟩,
    ⟨.first, .bind ⟨1⟩, [⟨.second, ⟨1⟩⟩], rfl⟩]

/-- The stray label is reported as foreign. -/
theorem rejects_iff_not_unnoticed_stray :
    Obtained strayLabel ∧
      (takeAll strayLabel .first).finish = .error (.foreign ⟨1⟩) ∧
      ¬ Unnoticed .first strayLabel := by
  have hobtained : Obtained strayLabel :=
    ((obtained_nil.snoc (by simp)).snoc (by simp)).snoc (by decide)
  obtain ⟨hrejects, hbind, -⟩ := rejects_iff_not_unnoticed hobtained .first
  have hunknown : ¬ Returned (callsOf .first (strayLabel.take 2)) ⟨1⟩ := by
    rw [returned_iff]
    decide
  obtain ⟨hmistake, hreport⟩ :=
    hbind (strayLabel.take 2) _ [] ⟨1⟩ rfl rfl rfl hunknown
  exact ⟨hobtained, hreport not_happens_nil, hrejects.mp hmistake⟩

/-- The first builder jumps to a label of the second one. It makes a label of its own only
then, and binds it. -/
def mixedUpLabel : List Turn :=
  [⟨.second, .newLabel, [], rfl⟩, ⟨.first, .jump ⟨0⟩, [⟨.second, ⟨0⟩⟩], rfl⟩,
    ⟨.first, .newLabel, [], rfl⟩, ⟨.first, .bind ⟨0⟩, [⟨.first, ⟨0⟩⟩], rfl⟩]

/-- The foreign label is taken for the builder's own, although the builder has not made any
when the label is used. -/
theorem finish_mixedUpLabel :
    Obtained mixedUpLabel ∧
      (∃ turn ∈ mixedUpLabel, turn.side = .first ∧ turn.Foreign) ∧
      ¬ Returned (callsOf .first (mixedUpLabel.take 1)) ⟨0⟩ ∧
      (takeAll mixedUpLabel .first).finish = .ok #[11, 2] ∧
      ¬ ∃ mistake, (takeAll mixedUpLabel .first).finish = .error mistake := by
  have hobtained : Obtained mixedUpLabel :=
    (((obtained_nil.snoc (by simp)).snoc (by decide)).snoc (by simp)).snoc (by decide)
  have hfinish : (takeAll mixedUpLabel .first).finish = .ok #[11, 2] := rfl
  refine ⟨hobtained, ⟨⟨.first, .jump ⟨0⟩, [⟨.second, ⟨0⟩⟩], rfl⟩, ?_, rfl, ?_⟩, ?_, hfinish, ?_⟩
  · simp [mixedUpLabel]
  · exact ⟨⟨.second, ⟨0⟩⟩, List.mem_singleton_self _, by decide⟩
  · rw [returned_iff]
    decide
  · rw [hfinish]
    rintro ⟨mistake, ⟨⟩⟩

end LanguageKit.Builder
