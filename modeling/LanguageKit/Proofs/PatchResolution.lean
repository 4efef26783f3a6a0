import Mathlib.Data.List.Induction
import LanguageKit.Proofs.InstructionBoundaries

/-!
# Finishing a program is resolving its labels in two passes

What a builder finishes can be read off the calls that were made. A first pass over the calls
finds the mistakes and the address at which each label was bound; a second pass over the slots
puts these addresses in the place of the labels. Labels are known by their numbers alone, so
the calls may name labels that are made later, or never, or by another builder.

The second pass ends at the first label that it cannot resolve. So a label that is never bound is
reported only if no label in front of it is bound to an address that does not fit into a word.
-/

namespace LanguageKit.Builder

/-- An event happens at one of the calls, seen with the calls in front of it. -/
def Happens (event : List Call → Call → Prop) (calls : List Call) : Prop :=
  ∃ before call after, calls = before ++ call :: after ∧ event before call

/-- How many labels have been made. -/
def labelsMade (calls : List Call) : Nat := calls.count .newLabel

/-- The slots of the instructions that have been added. -/
def emitted (calls : List Call) : List Operand := slots (calls.flatMap Call.added)

/-- A label has been bound when it had been made. -/
def Bound (calls : List Call) (label : Label) : Prop :=
  Happens (fun before call => call = .bind label ∧ label.number < labelsMade before) calls

/-- The address at the moment when a label was bound. -/
def BoundAt (calls : List Call) (label : Label) (address : Nat) : Prop :=
  Happens (fun before call => call = .bind label ∧ label.number < labelsMade before ∧
    ¬ Bound before label ∧ address = (callAll {} before).address) calls

/-- A label is bound to an address that fits into a word. -/
def Reachable (calls : List Call) (label : Label) : Prop :=
  ∃ address, BoundAt calls label address ∧ address ≤ maxAddress

/-- The first of the operands that are labels and never bound. -/
def FirstUnbound (calls : List Call) (label : Label) : Prop :=
  ¬ Bound calls label ∧ ∃ before after, emitted calls = before ++ .label label :: after ∧
    ∀ earlier, .label earlier ∈ before → Bound calls earlier

/-- A call that is a mistake behind other calls. -/
inductive Mistake (before : List Call) : Call → BuildError → Prop where
  /-- An instruction has the wrong number of operands. -/
  | operandCount (call : Call) (opcode : Opcode) (operands : List Operand)
      (hasked : call.instruction? = some (opcode, operands))
      (hcount : operands.length ≠ opcode.operandCount) :
      Mistake before call
        (.operandCount opcode operands.length (callAll {} before).address)
  /-- A label is bound that has been bound. -/
  | boundTwice (label : Label) (hbound : Bound before label) :
      Mistake before (.bind label) (.boundTwice label)
  /-- A label is bound that has not been made. -/
  | foreign (label : Label) (hunmade : labelsMade before ≤ label.number) :
      Mistake before (.bind label) (.foreign label)

/-- None of the calls is a mistake. -/
def Flawless (calls : List Call) : Prop :=
  ¬ Happens (fun before call => ∃ mistake, Mistake before call mistake) calls

/-- The mistake of the first call that is one. -/
def FirstMistake (calls : List Call) (mistake : BuildError) : Prop :=
  Happens (fun before call => Flawless before ∧ Mistake before call mistake) calls

/-- The code that calls describe: as long as the address behind them, with every word as it
was given, and with the address at which it was bound in the place of every label. -/
structure Resolves (calls : List Call) (code : Array Int32) : Prop where
  /-- The code ends at the address of the next instruction. -/
  size : code.size = (callAll {} calls).address
  /-- A word stays as it was given. -/
  words : ∀ (place : Nat) (word : Int32), (emitted calls)[place]? = some (.word word) →
    code[place]? = some word
  /-- A label becomes the address at which it was bound. -/
  labels : ∀ (place : Nat) (label : Label), (emitted calls)[place]? = some (.label label) →
    ∃ address word, BoundAt calls label address ∧ code[place]? = some word ∧
      word.toInt = (address : Int)

section Events

/-- A search finds nothing when there is nothing to be found. -/
theorem eq_none_iff_not_exists {α : Type} {found : Option α} {p : α → Prop}
    (h : ∀ value, found = some value ↔ p value) : found = none ↔ ¬ ∃ value, p value := by
  rw [Option.eq_none_iff_forall_ne_some, not_exists]
  exact forall_congr' fun value => not_congr (h value)

variable {event : List Call → Call → Prop} {calls : List Call} {call : Call}

/-- Nothing happens without calls. -/
theorem not_happens_nil : ¬ Happens event [] := by
  rintro ⟨before, call, after, hsplit, -⟩
  simp at hsplit

/-- With one more element, a list is split at this one or at one of those before. -/
theorem eq_or_exists_of_snoc_eq {α : Type} {elements before after : List α} {last element : α}
    (h : elements ++ [last] = before ++ element :: after) :
    (elements = before ∧ last = element) ∨ ∃ rest, elements = before ++ element :: rest := by
  rcases List.eq_nil_or_concat after with rfl | ⟨rest, other, rfl⟩
  · exact .inl (List.concat_inj.mp (by simpa using h))
  · rw [List.concat_eq_append, ← List.cons_append, ← List.append_assoc] at h
    exact .inr ⟨rest, (List.append_inj' h rfl).1⟩

/-- With one more call, an event has happened before or happens now. -/
theorem happens_snoc :
    Happens event (calls ++ [call]) ↔ Happens event calls ∨ event calls call := by
  constructor
  · rintro ⟨before, other, after, hsplit, hevent⟩
    rcases eq_or_exists_of_snoc_eq hsplit with ⟨rfl, rfl⟩ | ⟨rest, rfl⟩
    · exact .inr hevent
    · exact .inl ⟨before, other, rest, rfl, hevent⟩
  · rintro (⟨before, other, after, rfl, hevent⟩ | hevent)
    · exact ⟨before, other, after ++ [call], by simp, hevent⟩
    · exact ⟨calls, call, [], rfl, hevent⟩

/-- What happens, happens for a first time. -/
theorem Happens.first (h : Happens event calls) :
    Happens (fun before call => event before call ∧ ¬ Happens event before) calls := by
  induction calls using List.reverseRecOn with
  | nil => exact absurd h not_happens_nil
  | append_singleton calls call ih =>
    by_cases hbefore : Happens event calls
    · exact happens_snoc.mpr (.inl (ih hbefore))
    · have hnow := (happens_snoc.mp h).resolve_left hbefore
      exact happens_snoc.mpr (.inr ⟨hnow, hbefore⟩)

/-- A label is bound exactly when there is an address at which it was bound. -/
theorem exists_boundAt_iff {label : Label} :
    (∃ address, BoundAt calls label address) ↔ Bound calls label := by
  constructor
  · rintro ⟨_, before, call, after, hsplit, hcall, hmade, -, -⟩
    exact ⟨before, call, after, hsplit, hcall, hmade⟩
  · intro h
    obtain ⟨before, call, after, hsplit, ⟨hcall, hmade⟩, hfirst⟩ := h.first
    exact ⟨_, before, call, after, hsplit, hcall, hmade, hfirst, rfl⟩

/-- Calls with a mistake have a first one. -/
theorem exists_firstMistake_iff : (∃ mistake, FirstMistake calls mistake) ↔ ¬ Flawless calls := by
  rw [Flawless, not_not]
  constructor
  · rintro ⟨mistake, before, call, after, hsplit, -, hmistake⟩
    exact ⟨before, call, after, hsplit, mistake, hmistake⟩
  · intro h
    obtain ⟨before, call, after, hsplit, ⟨mistake, hmistake⟩, hfirst⟩ := h.first
    exact ⟨mistake, before, call, after, hsplit, hfirst, hmistake⟩

end Events

section Calls

variable {calls : List Call} {call : Call} {builder : Builder} {label : Label}

/-- One more call is made behind the others. -/
theorem callAll_snoc : callAll builder (calls ++ [call]) = (callAll builder calls).call call :=
  List.foldl_concat ..

/-- A call that asks for no instruction makes a label or binds one. -/
theorem eq_newLabel_or_bind (h : call.instruction? = none) :
    call = .newLabel ∨ ∃ label, call = .bind label := by
  cases call with
  | newLabel => exact .inl rfl
  | bind label => exact .inr ⟨label, rfl⟩
  | _ => cases h

/-- There are as many labels as have been made. -/
theorem size_labels_callAll (calls : List Call) :
    (callAll {} calls).labels.size = labelsMade calls := by
  unfold labelsMade
  induction calls using List.reverseRecOn with
  | nil => rfl
  | append_singleton calls call ih =>
    rw [callAll_snoc, List.count_append, ← ih]
    cases hasked : call.instruction? with
    | some asked =>
      have hother : call ≠ .newLabel := by
        rintro rfl
        cases hasked
      rw [call_of_instruction? hasked, labels_instruction,
        List.count_eq_zero_of_not_mem (by simpa using hother.symm)]
      rfl
    | none =>
      rcases eq_newLabel_or_bind hasked with rfl | ⟨label, rfl⟩
      · exact Array.size_push none
      · exact size_labels_bind _ label

/-- A label is bound in the builder exactly where the calls have bound it. -/
theorem target?_callAll (calls : List Call) (label : Label) (address : Nat) :
    (callAll {} calls).target? label = some address ↔ BoundAt calls label address := by
  induction calls using List.reverseRecOn generalizing address with
  | nil => exact ⟨nofun, fun h => absurd h not_happens_nil⟩
  | append_singleton calls call ih =>
    have hfree : (callAll {} calls).target? label = none ↔ ¬ Bound calls label :=
      (eq_none_iff_not_exists ih).trans (not_congr exists_boundAt_iff)
    rw [callAll_snoc, BoundAt, happens_snoc, ← BoundAt, ← ih, ← hfree, ← size_labels_callAll]
    cases hasked : call.instruction? with
    | some asked =>
      have hother : call ≠ .bind label := by
        rintro rfl
        cases hasked
      rw [call_of_instruction? hasked, target?, labels_instruction, ← target?]
      simp [hother]
    | none =>
      rcases eq_newLabel_or_bind hasked with rfl | ⟨other, rfl⟩
      · rw [Builder.call, target?_newLabel]
        simp
      · rw [Builder.call, target?_bind, Call.bind.injEq]

/-- A label is bound in the builder exactly when the calls have bound it. -/
theorem target?_eq_none_iff (calls : List Call) (label : Label) :
    (callAll {} calls).target? label = none ↔ ¬ Bound calls label :=
  (eq_none_iff_not_exists (target?_callAll calls label)).trans (not_congr exists_boundAt_iff)

/-- A call that asks for an instruction is a mistake when the number of operands is wrong. -/
theorem mistake_iff_of_instruction? {opcode : Opcode} {operands : List Operand}
    (h : call.instruction? = some (opcode, operands)) {mistake : BuildError} :
    Mistake calls call mistake ↔ operands.length ≠ opcode.operandCount ∧
      mistake = .operandCount opcode operands.length (callAll {} calls).address := by
  constructor
  · rintro (⟨_, other, given, hother, hwrong⟩ | _ | _)
    · cases h.symm.trans hother
      exact ⟨hwrong, rfl⟩
    · cases h
    · cases h
  · rintro ⟨hwrong, rfl⟩
    exact .operandCount call opcode operands h hwrong

/-- Making a label is no mistake. -/
theorem not_mistake_newLabel {mistake : BuildError} : ¬ Mistake calls .newLabel mistake := by
  rintro ⟨_, _, _, hasked, -⟩
  cases hasked

/-- Binding a label is a mistake when the label has been bound or has not been made. -/
theorem mistake_bind_iff {mistake : BuildError} :
    Mistake calls (.bind label) mistake ↔ (Bound calls label ∧ mistake = .boundTwice label) ∨
      (labelsMade calls ≤ label.number ∧ mistake = .foreign label) := by
  constructor
  · rintro (⟨_, _, _, hasked, -⟩ | ⟨_, hbound⟩ | ⟨_, hunmade⟩)
    · cases hasked
    · exact .inl ⟨hbound, rfl⟩
    · exact .inr ⟨hunmade, rfl⟩
  · rintro (⟨hbound, rfl⟩ | ⟨hunmade, rfl⟩)
    · exact .boundTwice label hbound
    · exact .foreign label hunmade

/-- What a builder does about a mistake that is found: it keeps the first one, and when there
is one, nothing else changes. -/
structure Records (builder next : Builder) (found : Option BuildError) : Prop where
  /-- The first mistake is kept. -/
  error : next.error = builder.error.or found
  /-- A mistake leaves code, labels and patches as they are. -/
  same : found ≠ none →
    next.code = builder.code ∧ next.labels = builder.labels ∧ next.patches = builder.patches

/-- A builder that records a mistake does nothing else. -/
theorem records_record (builder : Builder) (mistake : BuildError) :
    Records builder (builder.record mistake) (some mistake) :=
  ⟨rfl, fun _ => ⟨rfl, rfl, rfl⟩⟩

/-- A builder that finds no mistake keeps the one it has. -/
theorem records_none {next : Builder} (h : next.error = builder.error) :
    Records builder next none :=
  ⟨h.trans Option.or_none.symm, absurd rfl⟩

/-- An instruction is recorded as a mistake when the number of operands is wrong. -/
theorem records_instruction (builder : Builder) (opcode : Opcode) (operands : List Operand) :
    Records builder (builder.instruction opcode operands)
      (if operands.length = opcode.operandCount then none
        else some (.operandCount opcode operands.length builder.address)) := by
  unfold Builder.instruction
  split
  · exact records_none (labels_addOperands operands _).2
  · exact records_record builder _

/-- The mistake of binding a label that is bound or unknown. -/
def bindMistake? (builder : Builder) (label : Label) : Option BuildError :=
  match builder.labels[label.number]? with
  | some none => none
  | some (some _) => some (.boundTwice label)
  | none => some (.foreign label)

/-- Binding a label is recorded as a mistake when the label is bound or unknown. -/
theorem records_bind (builder : Builder) (label : Label) :
    Records builder (builder.bind label) (builder.bindMistake? label) := by
  unfold Builder.bind bindMistake?
  cases builder.labels[label.number]? with
  | none => exact records_record builder _
  | some target =>
    cases target with
    | none => exact records_none rfl
    | some target => exact records_record builder _

/-- A label is bound or unknown in the builder when it is so by the calls. -/
theorem bindMistake?_eq_some_iff (calls : List Call) (label : Label) (mistake : BuildError) :
    (callAll {} calls).bindMistake? label = some mistake ↔ Mistake calls (.bind label) mistake := by
  have hfree := target?_eq_none_iff calls label
  rw [mistake_bind_iff, ← size_labels_callAll, ← Array.getElem?_eq_none_iff]
  unfold bindMistake?
  rw [target?] at hfree
  cases hlabel : (callAll {} calls).labels[label.number]? with
  | none =>
    rw [hlabel] at hfree
    have hbound : ¬ Bound calls label := hfree.mp rfl
    simp [hbound, eq_comm]
  | some target =>
    rw [hlabel, Option.join_some] at hfree
    cases target with
    | none => simp [hfree.mp rfl]
    | some target =>
      have hbound : Bound calls label :=
        by_contra fun h => Option.some_ne_none target (hfree.mpr h)
      simp [hbound, eq_comm]

/-- What is recorded at a call is its mistake. -/
theorem exists_records (calls : List Call) (call : Call) :
    ∃ found : Option BuildError, (∀ mistake, found = some mistake ↔ Mistake calls call mistake) ∧
      Records (callAll {} calls) ((callAll {} calls).call call) found := by
  cases hasked : call.instruction? with
  | some asked =>
    obtain ⟨opcode, operands⟩ := asked
    rw [call_of_instruction? hasked]
    refine ⟨_, fun mistake => ?_, records_instruction _ opcode operands⟩
    rw [mistake_iff_of_instruction? hasked]
    split <;> simp [*, eq_comm]
  | none =>
    rcases eq_newLabel_or_bind hasked with rfl | ⟨label, rfl⟩
    · refine ⟨none, fun mistake => ?_, records_none rfl⟩
      exact iff_of_false (Option.some_ne_none mistake).symm not_mistake_newLabel
    · exact ⟨_, bindMistake?_eq_some_iff calls label, records_bind _ label⟩

/-- The builder keeps the first mistake of the calls. -/
theorem error_callAll (calls : List Call) (mistake : BuildError) :
    (callAll {} calls).error = some mistake ↔ FirstMistake calls mistake := by
  induction calls using List.reverseRecOn generalizing mistake with
  | nil => exact ⟨nofun, fun h => absurd h not_happens_nil⟩
  | append_singleton calls call ih =>
    have hflawless : (callAll {} calls).error = none ↔ Flawless calls :=
      (eq_none_iff_not_exists ih).trans (by rw [exists_firstMistake_iff, not_not])
    obtain ⟨found, hfound, hrecords⟩ := exists_records calls call
    rw [callAll_snoc, hrecords.error, FirstMistake, happens_snoc, ← FirstMistake, ← ih, ← hflawless,
      ← hfound]
    exact Option.or_eq_some_iff

/-- The builder has no mistake exactly when none of the calls is one. -/
theorem error_eq_none_iff (calls : List Call) :
    (callAll {} calls).error = none ↔ Flawless calls :=
  (eq_none_iff_not_exists (error_callAll calls)).trans (by rw [exists_firstMistake_iff, not_not])

/-- The builder holds the slots that the calls have added. -/
theorem holds_callAll (calls : List Call) : (callAll {} calls).Holds (emitted calls) :=
  (built_empty.callAll calls).holds

/-- Calls without a mistake are finished by resolving their slots. -/
theorem finish_of_flawless (h : Flawless calls) :
    (callAll {} calls).finish =
      ((emitted calls).mapM (callAll {} calls).resolveSlot).map List.toArray :=
  (holds_callAll calls).finish_eq ((error_eq_none_iff calls).mpr h)

/-- A label that was bound is resolved when its address fits into a word. -/
theorem resolveSlot_of_boundAt {address : Nat} (h : BoundAt calls label address) :
    (callAll {} calls).resolveSlot (.label label) =
      if address ≤ maxAddress then .ok (Int32.ofNat address) else .error .tooLong := by
  rw [resolveSlot, resolve, (target?_callAll calls label address).mpr h]

/-- A label that was not bound is reported. -/
theorem resolveSlot_of_not_bound (h : ¬ Bound calls label) :
    (callAll {} calls).resolveSlot (.label label) = .error (.neverBound label) := by
  rw [resolveSlot, resolve, (target?_eq_none_iff calls label).mpr h]

/-- Slots whose labels are bound to addresses that fit into words can be resolved. -/
theorem exists_resolveSlot {held : List Operand}
    (h : ∀ label, .label label ∈ held → Reachable calls label) :
    ∀ slot ∈ held, ∃ word, (callAll {} calls).resolveSlot slot = .ok word := by
  intro slot hslot
  cases slot with
  | word word => exact ⟨word, rfl⟩
  | label label =>
    obtain ⟨address, hbound, hfits⟩ := h label hslot
    exact ⟨_, (resolveSlot_of_boundAt hbound).trans (if_pos hfits)⟩

/-- The first label that cannot be resolved decides what is reported. -/
theorem finish_of_unresolved (h : Flawless calls) {before after : List Operand}
    {mistake : BuildError} (hsplit : emitted calls = before ++ .label label :: after)
    (hbefore : ∀ earlier, .label earlier ∈ before → Reachable calls earlier)
    (hlabel : (callAll {} calls).resolveSlot (.label label) = .error mistake) :
    (callAll {} calls).finish = .error mistake := by
  rw [finish_of_flawless h, hsplit, mapM_eq_error (exists_resolveSlot hbefore) hlabel]
  rfl

/-- When all labels among the slots are bound to addresses that fit into words, there is a
program. -/
theorem exists_finish (h : Flawless calls)
    (hlabels : ∀ label, .label label ∈ emitted calls → Reachable calls label) :
    ∃ code, (callAll {} calls).finish = .ok code ∧ Resolves calls code := by
  have hslots : ∀ slot ∈ emitted calls,
      (callAll {} calls).resolveSlot slot = .ok ((callAll {} calls).wordOf slot) := by
    intro slot hslot
    obtain ⟨word, hword⟩ := exists_resolveSlot hlabels slot hslot
    rw [hword, (resolveSlot_eq_ok hword).1]
  refine ⟨((emitted calls).map (callAll {} calls).wordOf).toArray, ?_, ?_, ?_, ?_⟩
  · rw [finish_of_flawless h, mapM_eq_ok_map hslots]
    rfl
  · rw [(holds_callAll calls).address_eq, List.size_toArray, List.length_map]
  · intro place word hword
    rw [List.getElem?_toArray, List.getElem?_map, hword]
    rfl
  · intro place label hlabel
    obtain ⟨address, hbound, hfits⟩ := hlabels label (List.mem_of_getElem? hlabel)
    refine ⟨address, Int32.ofNat address, hbound, ?_, toInt_ofNat_of_le_maxAddress hfits⟩
    rw [List.getElem?_toArray, List.getElem?_map, hlabel, Option.map_some, wordOf,
      (target?_callAll calls label address).mpr hbound, Option.getD_some]

/-- A label is bound to no address behind the code. -/
theorem BoundAt.le_address {address : Nat} (h : BoundAt calls label address) :
    address ≤ (callAll {} calls).address := by
  have hbuilt := built_empty.callAll calls
  have htarget := (target?_callAll calls label address).mpr h
  obtain ⟨before, ⟨rest, hbody⟩, rfl⟩ := hbuilt.bound label address htarget
  rw [hbuilt.holds.address_eq, ← hbody, slots_append, List.length_append]
  exact Nat.le_add_right _ _

/-- In code whose addresses all fit into words, the first label that is never bound is reported. -/
theorem finish_of_firstUnbound (h : Flawless calls)
    (hshort : (callAll {} calls).address ≤ maxAddress) (hfirst : FirstUnbound calls label) :
    (callAll {} calls).finish = .error (.neverBound label) := by
  obtain ⟨hnever, before, after, hsplit, hbefore⟩ := hfirst
  refine finish_of_unresolved h hsplit (fun earlier hmem => ?_) (resolveSlot_of_not_bound hnever)
  obtain ⟨address, hbound⟩ := exists_boundAt_iff.mpr (hbefore earlier hmem)
  exact ⟨address, hbound, hbound.le_address.trans hshort⟩

/-- A patch has its place among the slots. -/
theorem place_lt_of_mem_patchesFrom {address : Nat} {held : List Operand} {patch : Patch}
    (h : patch ∈ patchesFrom address held) : patch.place < address + held.length := by
  induction held generalizing address with
  | nil => cases h
  | cons slot held ih =>
    rw [List.length_cons]
    cases slot with
    | word word =>
      have hrest := ih h
      omega
    | label label =>
      rcases List.mem_cons.mp h with rfl | h
      · dsimp only
        omega
      · have hrest := ih h
        omega

/-- Calls that come one after the other emit their slots one after the other. -/
theorem emitted_append (first second : List Call) :
    emitted (first ++ second) = emitted first ++ emitted second := by
  rw [emitted, List.flatMap_append, slots_append]
  rfl

/-- Pushes make the code longer by two words each, and change neither labels nor patches nor the
mistake. -/
theorem callAll_pushes (builder : Builder) (word : Int32) (count : Nat) :
    (builder.callAll (List.replicate count (.push word))).labels = builder.labels ∧
      (builder.callAll (List.replicate count (.push word))).patches = builder.patches ∧
      (builder.callAll (List.replicate count (.push word))).error = builder.error ∧
      (builder.callAll (List.replicate count (.push word))).address =
        builder.address + 2 * count := by
  induction count generalizing builder with
  | zero => exact ⟨rfl, rfl, rfl, rfl⟩
  | succ count ih =>
    obtain ⟨hlabels, hpatches, herror, haddress⟩ := ih (builder.push word)
    have hlonger : (builder.push word).address = builder.address + 2 := by
      have hpush : (builder.push word).code =
          (builder.code.push Opcode.push.word).push word := rfl
      rw [address, hpush, Array.size_push, Array.size_push]
      rfl
    have hcalls : builder.callAll (List.replicate (count + 1) (.push word)) =
        (builder.push word).callAll (List.replicate count (.push word)) := by
      rw [List.replicate_succ, callAll, List.foldl_cons]
      rfl
    rw [hcalls]
    refine ⟨hlabels, hpatches, herror, ?_⟩
    rw [haddress, hlonger]
    omega

/-- Pushes emit no label. -/
theorem label_not_mem_emitted_pushes {word : Int32} {count : Nat} {label : Label} :
    .label label ∉ emitted (List.replicate count (.push word)) := by
  intro hlabel
  obtain ⟨added, hadded, hslot⟩ := List.mem_flatMap.mp hlabel
  obtain ⟨call, hcall, hmem⟩ := List.mem_flatMap.mp hadded
  obtain rfl := List.eq_of_mem_replicate hcall
  obtain rfl : added = (.push, [.word word]) := List.mem_singleton.mp hmem
  simp at hslot

end Calls

/-- What a builder finishes after calls. The first mistake is reported, and calls without one
have their slots resolved in order: the first label that was never bound, or whose address does
not fit into a word, is reported, and when there is none, every label becomes the address at
which it was bound. So the first label that was never bound is reported at least in code whose
addresses all fit into words. A mistake changes nothing else, and patches stay inside the code. -/
theorem finish_resolves (calls : List Call) :
    (Flawless calls ∨ ∃ mistake, FirstMistake calls mistake) ∧
    (∀ mistake, FirstMistake calls mistake → (callAll {} calls).finish = .error mistake) ∧
    (Flawless calls →
      (∀ before label after, emitted calls = before ++ .label label :: after →
        (∀ earlier, .label earlier ∈ before → Reachable calls earlier) →
        (¬ Bound calls label → (callAll {} calls).finish = .error (.neverBound label)) ∧
        (∀ address, BoundAt calls label address → maxAddress < address →
          (callAll {} calls).finish = .error .tooLong)) ∧
      ((callAll {} calls).address ≤ maxAddress → ∀ label, FirstUnbound calls label →
        (callAll {} calls).finish = .error (.neverBound label)) ∧
      ((∀ label, .label label ∈ emitted calls → Reachable calls label) →
        ∃ code, (callAll {} calls).finish = .ok code ∧ Resolves calls code)) ∧
    (∀ call mistake, Mistake calls call mistake →
      ((callAll {} calls).call call).code = (callAll {} calls).code ∧
        ((callAll {} calls).call call).labels = (callAll {} calls).labels ∧
        ((callAll {} calls).call call).patches = (callAll {} calls).patches) ∧
    ∀ patch ∈ (callAll {} calls).patches, patch.place < (callAll {} calls).code.size := by
  refine ⟨?_, fun mistake hfirst => ?_,
    fun hflawless => ⟨?_, fun hshort label => finish_of_firstUnbound hflawless hshort,
      exists_finish hflawless⟩, ?_, ?_⟩
  · rw [exists_firstMistake_iff]
    exact Classical.em _
  · rw [finish, (error_callAll calls mistake).mpr hfirst]
  · intro before label after hsplit hbefore
    refine ⟨fun hnever => ?_, fun address hbound hfar => ?_⟩
    · exact finish_of_unresolved hflawless hsplit hbefore (resolveSlot_of_not_bound hnever)
    · apply finish_of_unresolved hflawless hsplit hbefore
      rw [resolveSlot_of_boundAt hbound, if_neg (Nat.not_le_of_lt hfar)]
  · intro call mistake hmistake
    obtain ⟨found, hfound, hrecords⟩ := exists_records calls call
    apply hrecords.same
    rw [(hfound mistake).mpr hmistake]
    exact Option.some_ne_none mistake
  · intro patch hpatch
    have hheld := holds_callAll calls
    rw [← Array.mem_toList_iff, hheld.patches] at hpatch
    have hplace := place_lt_of_mem_patchesFrom hpatch
    rwa [Nat.zero_add, ← hheld.address_eq] at hplace

example : (callAll {} [.jump ⟨0⟩, .newLabel, .push 9, .bind ⟨0⟩, .jump ⟨0⟩]).finish =
    .ok #[11, 4, 2, 9, 11, 4] := rfl

/-- Jumps to two labels, with a number of pushes between them. The first label is bound behind the
pushes, and the second one is never bound. -/
def distantLabel (count : Nat) : List Call :=
  [Call.newLabel, .newLabel, .jump ⟨0⟩] ++ List.replicate count (Call.push 0) ++
    [Call.bind ⟨0⟩, .jump ⟨1⟩]

/-- The builder has no mistake then. The first label is bound to the address behind the first jump
and the pushes, and the second one is free. -/
theorem callAll_distantLabel (count : Nat) :
    (callAll {} (distantLabel count)).error = none ∧
      (callAll {} (distantLabel count)).labels = #[some (2 + 2 * count), none] := by
  have hpushes := callAll_pushes (callAll {} [.newLabel, .newLabel, .jump ⟨0⟩]) 0 count
  have hcalls : callAll {} (distantLabel count) =
      (((callAll {} [.newLabel, .newLabel, .jump ⟨0⟩]).callAll
        (List.replicate count (.push 0))).bind ⟨0⟩).jump ⟨1⟩ := by
    rw [distantLabel, callAll, List.foldl_append, List.foldl_append]
    rfl
  generalize (callAll {} [.newLabel, .newLabel, .jump ⟨0⟩]).callAll
    (List.replicate count (.push 0)) = pushed at hpushes hcalls
  obtain ⟨hlabels, -, herror, haddress⟩ := hpushes
  have hfree : pushed.labels[0]? = some none := by
    rw [hlabels]
    rfl
  have hbind : pushed.bind ⟨0⟩ = { pushed with labels := #[some (2 + 2 * count), none] } := by
    unfold Builder.bind
    rw [hfree]
    dsimp only
    rw [haddress, hlabels]
    rfl
  rw [hcalls, hbind]
  exact ⟨herror, rfl⟩

/-- What is emitted are the two jumps with the pushes between them. -/
theorem emitted_distantLabel (count : Nat) :
    emitted (distantLabel count) = slots [(.j, [.label ⟨0⟩])] ++
      (emitted (List.replicate count (.push 0)) ++ slots [(.j, [.label ⟨1⟩])]) := by
  rw [distantLabel, emitted_append, emitted_append, List.append_assoc]
  rfl

/-- The label that is never bound is reported as long as the other one is bound to an address that
fits into a word. Behind more pushes it is the address of the other one that is reported. -/
theorem finish_distantLabel (count : Nat) :
    Flawless (distantLabel count) ∧ FirstUnbound (distantLabel count) ⟨1⟩ ∧
      (callAll {} (distantLabel count)).finish =
        .error (if 2 + 2 * count ≤ maxAddress then .neverBound ⟨1⟩ else .tooLong) := by
  obtain ⟨herror, hlabels⟩ := callAll_distantLabel count
  have hflawless : Flawless (distantLabel count) := (error_eq_none_iff _).mp herror
  have hbound : BoundAt (distantLabel count) ⟨0⟩ (2 + 2 * count) := by
    rw [← target?_callAll, target?, hlabels]
    rfl
  have hnever : ¬ Bound (distantLabel count) ⟨1⟩ := by
    rw [← target?_eq_none_iff, target?, hlabels]
    rfl
  -- In front of the second label stand the first jump, the pushes and the word of the second jump.
  have hsplit : emitted (distantLabel count) =
      slots [(.j, [.label ⟨0⟩])] ++ (emitted (List.replicate count (.push 0)) ++ slots [(.j, [])]) ++
        .label ⟨1⟩ :: [] := by
    rw [emitted_distantLabel, List.append_assoc, List.append_assoc]
    rfl
  have hearlier : ∀ earlier, .label earlier ∈ slots [(.j, [.label ⟨0⟩])] ++
      (emitted (List.replicate count (.push 0)) ++ slots [(.j, [])]) → earlier = ⟨0⟩ := by
    intro earlier hmem
    simpa [slots, label_not_mem_emitted_pushes] using hmem
  refine ⟨hflawless, ⟨hnever, _, _, hsplit, fun earlier hmem => ?_⟩, ?_⟩
  · rw [hearlier earlier hmem]
    exact exists_boundAt_iff.mp ⟨_, hbound⟩
  by_cases hfits : 2 + 2 * count ≤ maxAddress
  · rw [if_pos hfits]
    refine finish_of_unresolved hflawless hsplit ?_ (resolveSlot_of_not_bound hnever)
    intro earlier hmem
    rw [hearlier earlier hmem]
    exact ⟨_, hbound, hfits⟩
  · rw [if_neg hfits]
    have hfront : emitted (distantLabel count) = slots [(.j, [])] ++ .label ⟨0⟩ ::
        (emitted (List.replicate count (.push 0)) ++ slots [(.j, [.label ⟨1⟩])]) :=
      emitted_distantLabel count
    refine finish_of_unresolved hflawless hfront ?_ ?_
    · intro earlier hmem
      simp [slots] at hmem
    · rw [resolveSlot_of_boundAt hbound, if_neg hfits]

/-- With so many pushes that the first label is bound to an address that does not fit into a word,
the label that is never bound is not reported, although it is the first such operand and no call is
a mistake. -/
theorem unbound_label_hidden :
    Flawless (distantLabel 0x40000000) ∧ FirstUnbound (distantLabel 0x40000000) ⟨1⟩ ∧
      (callAll {} (distantLabel 0x40000000)).finish = .error .tooLong ∧
      (callAll {} (distantLabel 0x40000000)).finish ≠ .error (.neverBound ⟨1⟩) := by
  obtain ⟨hflawless, hfirst, hfinish⟩ := finish_distantLabel 0x40000000
  have hfar : ¬ 2 + 2 * 0x40000000 ≤ maxAddress := by decide
  rw [if_neg hfar] at hfinish
  refine ⟨hflawless, hfirst, hfinish, ?_⟩
  rw [hfinish]
  simp

end LanguageKit.Builder
