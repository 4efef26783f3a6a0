import Mathlib.Data.List.Basic
import LanguageKit.Program.Builder

/-!
# Label patching as one pass over the slots

The code of a builder is a sequence of slots: words that are known, and labels
whose addresses are missing. The builder keeps the words in one place and the
labels in another; this module puts both together again. Finishing a program is
the same as resolving its slots one after the other, and every slot that is a
label becomes the address at which the label was bound.
-/

namespace LanguageKit

/-- Two computations in a row that succeed have both succeeded. -/
theorem exists_of_bind_eq_ok {ε α β : Type} {first : Except ε α} {second : α → Except ε β}
    {last : β} (h : (first >>= second) = .ok last) :
    ∃ middle, first = .ok middle ∧ second middle = .ok last := by
  cases first with
  | error mistake => cases h
  | ok middle => exact ⟨middle, rfl, h⟩

section Lists

variable {ε α β : Type} {f : α → Except ε β}

/-- When every element brings a value, a list of elements brings the list of the
values. -/
theorem mapM_eq_ok_map {g : α → β} {elements : List α}
    (h : ∀ element ∈ elements, f element = .ok (g element)) :
    elements.mapM f = .ok (elements.map g) := by
  induction elements with
  | nil => rfl
  | cons element elements ih =>
    have hrest := ih fun other hother => h other (List.mem_cons_of_mem element hother)
    rw [List.mapM_cons, h element List.mem_cons_self, hrest]
    rfl

/-- When a list of elements brings values, each of them does. -/
theorem exists_of_mapM_eq_ok {elements : List α} {values : List β}
    (h : elements.mapM f = .ok values) : ∀ element ∈ elements, ∃ value, f element = .ok value := by
  induction elements generalizing values with
  | nil => simp
  | cons first elements ih =>
    rw [List.mapM_cons] at h
    obtain ⟨value, hfirst, h⟩ := exists_of_bind_eq_ok h
    obtain ⟨rest, hrest, -⟩ := exists_of_bind_eq_ok h
    intro element helement
    rcases List.mem_cons.mp helement with rfl | helement
    · exact ⟨value, hfirst⟩
    · exact ih hrest element helement

/-- The first element that brings none is reported. -/
theorem mapM_eq_error {before after : List α} {element : α} {mistake : ε}
    (hbefore : ∀ earlier ∈ before, ∃ value, f earlier = .ok value)
    (helement : f element = .error mistake) :
    (before ++ element :: after).mapM f = .error mistake := by
  induction before with
  | nil =>
    rw [List.nil_append, List.mapM_cons, helement]
    rfl
  | cons first before ih =>
    obtain ⟨value, hvalue⟩ := hbefore first List.mem_cons_self
    have hrest := ih fun earlier hearlier => hbefore earlier (List.mem_cons_of_mem first hearlier)
    rw [List.cons_append, List.mapM_cons, hvalue, hrest]
    rfl

/-- A list with an element that lacks a property has a first one. -/
theorem exists_first {p : α → Prop} {elements : List α} (h : ∃ element ∈ elements, ¬ p element) :
    ∃ before element after, elements = before ++ element :: after ∧
      (∀ earlier ∈ before, p earlier) ∧ ¬ p element := by
  classical
  obtain ⟨element, helement, hnot⟩ := h
  have hsome : (elements.find? fun element => ¬ p element).isSome = true :=
    List.find?_isSome.mpr ⟨element, helement, by simpa using hnot⟩
  obtain ⟨first, hfirst⟩ := Option.isSome_iff_exists.mp hsome
  obtain ⟨hlacks, before, after, hsplit, hbefore⟩ := List.find?_eq_some_iff_append.mp hfirst
  refine ⟨before, first, after, hsplit, fun earlier hearlier => ?_, by simpa using hlacks⟩
  simpa using hbefore earlier hearlier

end Lists

namespace Builder

/-- A call of a builder. -/
inductive Call where
  /-- Add an instruction. -/
  | instruction (opcode : Opcode) (operands : List Operand)
  /-- Add an instruction whose operands are all words. -/
  | emit (opcode : Opcode) (operands : List Int32)
  /-- Add an instruction without operands. -/
  | op (opcode : Opcode)
  /-- Add an instruction that pushes a word. -/
  | push (word : Int32)
  /-- Add a jump. -/
  | jump (label : Label)
  /-- Add a jump that is taken on a word. -/
  | jumpIfEqual (word : Int32) (label : Label)
  /-- Add a jump that is taken on all but a word. -/
  | jumpIfNotEqual (word : Int32) (label : Label)
  /-- Make a label. -/
  | newLabel
  /-- Bind a label. -/
  | bind (label : Label)
  deriving DecidableEq

/-- The builder after a call. -/
def call (builder : Builder) : Call → Builder
  | .instruction opcode operands => builder.instruction opcode operands
  | .emit opcode operands => builder.emit opcode operands
  | .op opcode => builder.op opcode
  | .push word => builder.push word
  | .jump label => builder.jump label
  | .jumpIfEqual word label => builder.jumpIfEqual word label
  | .jumpIfNotEqual word label => builder.jumpIfNotEqual word label
  | .newLabel => builder.newLabel.2
  | .bind label => builder.bind label

/-- The builder after calls, one after the other. -/
def callAll (builder : Builder) (calls : List Call) : Builder := calls.foldl call builder

/-- The instruction a call asks for, if it asks for one. -/
def Call.instruction? : Call → Option (Opcode × List Operand)
  | .instruction opcode operands => some (opcode, operands)
  | .emit opcode operands => some (opcode, operands.map .word)
  | .op opcode => some (opcode, [])
  | .push word => some (.push, [.word word])
  | .jump label => some (.j, [.label label])
  | .jumpIfEqual word label => some (.jeq, [.word word, .label label])
  | .jumpIfNotEqual word label => some (.jne, [.word word, .label label])
  | .newLabel | .bind _ => none

/-- The instruction a call adds: the one it asks for, if the number of operands is
right. -/
def Call.added (call : Call) : List (Opcode × List Operand) :=
  (call.instruction?.filter fun asked => asked.2.length = asked.1.operandCount).toList

/-- A call that asks for an instruction does nothing else. -/
theorem call_of_instruction? {call : Call} {opcode : Opcode} {operands : List Operand}
    (h : call.instruction? = some (opcode, operands)) (builder : Builder) :
    builder.call call = builder.instruction opcode operands := by
  cases call <;> cases h <;> rfl

/-- The slots of instructions: the word of each opcode and its operands. -/
def slots (instructions : List (Opcode × List Operand)) : List Operand :=
  instructions.flatMap fun instruction => .word instruction.1.word :: instruction.2

/-- The word that stands in a slot before the program is finished. -/
def placeholder : Operand → Int32
  | .word word => word
  | .label _ => 0

/-- The places of the labels among slots, from an address on. -/
def patchesFrom (address : Nat) : List Operand → List Patch
  | [] => []
  | .word _ :: rest => patchesFrom (address + 1) rest
  | .label label :: rest => ⟨address, label⟩ :: patchesFrom (address + 1) rest

/-- A builder whose code and patches are those of slots. -/
structure Holds (builder : Builder) (slots : List Operand) : Prop where
  /-- The code holds the known words. -/
  code : builder.code.toList = slots.map placeholder
  /-- The patches hold the labels. -/
  patches : builder.patches.toList = patchesFrom 0 slots

variable {builder : Builder} {held : List Operand}

/-- The next instruction comes behind the slots. -/
theorem Holds.address_eq (h : builder.Holds held) : builder.address = held.length := by
  have hlength := congrArg List.length h.code
  rw [List.length_map, Array.length_toList] at hlength
  exact hlength

/-- The labels behind other slots are at their places behind these slots. -/
theorem patchesFrom_append (address : Nat) (first second : List Operand) :
    patchesFrom address (first ++ second) =
      patchesFrom address first ++ patchesFrom (address + first.length) second := by
  induction first generalizing address with
  | nil => rfl
  | cons slot first ih =>
    have hlength : address + 1 + first.length = address + (slot :: first).length := by
      rw [List.length_cons]
      omega
    cases slot with
    | word word => rw [List.cons_append, patchesFrom, patchesFrom, ih, hlength]
    | label label =>
      rw [List.cons_append, patchesFrom, patchesFrom, ih, hlength, List.cons_append]

/-- An operand is added as one more slot. -/
theorem Holds.addOperand (h : builder.Holds held) (operand : Operand) :
    (builder.addOperand operand).Holds (held ++ [operand]) := by
  have haddress := h.address_eq
  cases operand with
  | word word =>
    constructor
    · simp [Builder.addOperand, addWord, h.code, placeholder]
    · simp [Builder.addOperand, addWord, h.patches, patchesFrom_append, patchesFrom]
  | label label =>
    constructor
    · simp [Builder.addOperand, h.code, placeholder]
    · simp [Builder.addOperand, h.patches, patchesFrom_append, patchesFrom, haddress]

/-- Operands are added as slots, one after the other. -/
theorem Holds.addOperands (h : builder.Holds held) (operands : List Operand) :
    (operands.foldl Builder.addOperand builder).Holds (held ++ operands) := by
  induction operands generalizing builder held with
  | nil => simpa using h
  | cons operand operands ih =>
    have hrest := ih (h.addOperand operand)
    rwa [List.append_assoc, List.singleton_append] at hrest

/-- Adding operands changes neither the labels nor the mistakes. -/
theorem labels_addOperands (operands : List Operand) (builder : Builder) :
    (operands.foldl Builder.addOperand builder).labels = builder.labels ∧
      (operands.foldl Builder.addOperand builder).error = builder.error := by
  induction operands generalizing builder with
  | nil => exact ⟨rfl, rfl⟩
  | cons operand operands ih =>
    obtain ⟨hlabels, herror⟩ := ih (builder.addOperand operand)
    rw [List.foldl_cons, hlabels, herror]
    cases operand <;> exact ⟨rfl, rfl⟩

/-- An instruction leaves the labels as they are. -/
theorem labels_instruction (builder : Builder) (opcode : Opcode) (operands : List Operand) :
    (builder.instruction opcode operands).labels = builder.labels := by
  unfold Builder.instruction
  split
  · rw [(labels_addOperands operands _).1]
    rfl
  · rfl

/-- Binding changes no number of labels. -/
theorem size_labels_bind (builder : Builder) (label : Label) :
    (builder.bind label).labels.size = builder.labels.size := by
  unfold Builder.bind
  split
  · exact Array.size_setIfInBounds
  · rfl
  · rfl

/-- A label that is made is not bound. -/
theorem target?_newLabel {label : Label} : builder.newLabel.2.target? label = builder.target? label := by
  simp only [target?, Builder.newLabel, Array.getElem?_push]
  split
  · rename_i hnumber
    rw [Array.getElem?_eq_none (Nat.le_of_eq hnumber.symm)]
    rfl
  · rfl

/-- Binding a label binds it to the address at the moment, if it has been made and is not
bound, and changes no other label. -/
theorem target?_bind {label other : Label} {address : Nat} :
    (builder.bind other).target? label = some address ↔
      builder.target? label = some address ∨
        (other = label ∧ label.number < builder.labels.size ∧ builder.target? label = none ∧
          address = builder.address) := by
  unfold Builder.bind
  split
  · rename_i hfree
    by_cases hnumber : other.number = label.number
    · obtain rfl : other = label := by
        cases other
        cases label
        exact congrArg Label.mk hnumber
      have hmade := (Array.getElem?_eq_some_iff.mp hfree).1
      have hnone : builder.target? other = none := by
        rw [target?, hfree]
        rfl
      rw [target?, Array.getElem?_setIfInBounds_self_of_lt hmade, hnone]
      simp [hmade, eq_comm]
    · have hother : other ≠ label := fun h => hnumber (congrArg Label.number h)
      simp [target?, hnumber, hother]
  · rename_i target hbound
    rw [Builder.record]
    refine ⟨.inl, fun h => h.elim id ?_⟩
    rintro ⟨rfl, -, hfree, -⟩
    rw [target?, hbound] at hfree
    cases hfree
  · rename_i hforeign
    refine ⟨.inl, fun h => h.elim id ?_⟩
    rintro ⟨rfl, hmade, -, -⟩
    exact absurd (Array.getElem?_eq_none_iff.mp hforeign) (Nat.not_le_of_lt hmade)

/-- An instruction with the right number of operands adds its word and its
operands and nothing else. -/
theorem Holds.instruction (h : builder.Holds held) {opcode : Opcode} {operands : List Operand}
    (hcount : operands.length = opcode.operandCount) :
    (builder.instruction opcode operands).Holds (held ++ slots [(opcode, operands)]) ∧
      (builder.instruction opcode operands).labels = builder.labels ∧
      (builder.instruction opcode operands).error = builder.error := by
  obtain ⟨hlabels, herror⟩ := labels_addOperands operands (builder.addWord opcode.word)
  have hword : (operands.foldl Builder.addOperand (builder.addWord opcode.word)).Holds
      (held ++ [.word opcode.word] ++ operands) :=
    (h.addOperand (.word opcode.word)).addOperands operands
  unfold Builder.instruction
  rw [if_pos hcount]
  refine ⟨?_, hlabels, herror⟩
  simpa [slots] using hword

/-- Resolves one slot. -/
def resolveSlot (builder : Builder) : Operand → Except BuildError Int32
  | .word word => .ok word
  | .label label => builder.resolve label

/-- Filling the place of a label is resolving it. -/
theorem applyPatch_placeholder (builder : Builder) (filled rest : List Int32) (label : Label) :
    builder.applyPatch (filled ++ placeholder (.label label) :: rest).toArray
        ⟨filled.length, label⟩ =
      (builder.resolve label).map fun word => (filled ++ word :: rest).toArray := by
  unfold applyPatch
  cases builder.resolve label with
  | error mistake => rfl
  | ok word => simp [Except.map]

/-- Filling the places of labels among slots is resolving the slots from the first
to the last; the first slot that cannot be resolved is reported. -/
theorem foldlM_applyPatch (builder : Builder) (filled : List Int32) (rest : List Operand) :
    (patchesFrom filled.length rest).foldlM builder.applyPatch
        (filled ++ rest.map placeholder).toArray =
      (rest.mapM builder.resolveSlot).map fun words => (filled ++ words).toArray := by
  induction rest generalizing filled with
  | nil => simp [patchesFrom, Except.map, pure, Except.pure]
  | cons slot rest ih =>
    have hstep (word : Int32) (hword : builder.resolveSlot slot = .ok word) :
        (patchesFrom (filled.length + 1) rest).foldlM builder.applyPatch
            (filled ++ word :: rest.map placeholder).toArray =
          ((slot :: rest).mapM builder.resolveSlot).map fun words => (filled ++ words).toArray := by
      have hrest := ih (filled ++ [word])
      rw [List.length_append, List.length_singleton, List.append_assoc,
        List.singleton_append] at hrest
      rw [hrest, List.mapM_cons, hword]
      change _ = Except.map _ ((rest.mapM builder.resolveSlot).map fun words => word :: words)
      cases rest.mapM builder.resolveSlot <;> simp [Except.map]
    cases slot with
    | word word => exact hstep word rfl
    | label label =>
      rw [patchesFrom, List.foldlM_cons, List.map_cons, applyPatch_placeholder]
      cases hword : builder.resolve label with
      | error mistake =>
        rw [List.mapM_cons, resolveSlot, hword]
        rfl
      | ok word => exact hstep word hword

/-- Finishing a program without a mistake is resolving its slots. -/
theorem Holds.finish_eq (h : builder.Holds held) (herror : builder.error = none) :
    builder.finish = (held.mapM builder.resolveSlot).map List.toArray := by
  have hcode : builder.code = (held.map placeholder).toArray := by
    rw [← h.code, Array.toArray_toList]
  have hpatch := foldlM_applyPatch builder [] held
  unfold finish
  rw [herror, h.patches, hcode]
  simpa using hpatch

/-- The word a slot becomes: a word stays as it is, and a label becomes the
address it is bound to. -/
def wordOf (builder : Builder) : Operand → Int32
  | .word word => word
  | .label label => Int32.ofNat ((builder.target? label).getD 0)

/-- A label is resolved when it is bound and its address fits into a word. -/
theorem resolve_eq_ok {label : Label} {word : Int32} (h : builder.resolve label = .ok word) :
    ∃ target, builder.target? label = some target ∧ target ≤ maxAddress ∧
      word = Int32.ofNat target := by
  unfold resolve at h
  split at h
  · contradiction
  · rename_i target htarget
    split at h
    · rename_i hmax
      cases h
      exact ⟨target, htarget, hmax, rfl⟩
    · contradiction

/-- A slot that can be resolved becomes its word, and if it is a label, it is bound to
an address that fits into a word. -/
theorem resolveSlot_eq_ok {slot : Operand} {word : Int32}
    (h : builder.resolveSlot slot = .ok word) :
    word = builder.wordOf slot ∧ ∀ label, .label label = slot →
      ∃ target, builder.target? label = some target ∧ target ≤ maxAddress := by
  cases slot with
  | word known =>
    have heq : known = word := Except.ok.inj h
    exact ⟨heq.symm, fun _ hlabel => nomatch hlabel⟩
  | label first =>
    obtain ⟨target, htarget, hmax, heq⟩ := resolve_eq_ok h
    refine ⟨by rw [heq, wordOf, htarget, Option.getD_some], ?_⟩
    rintro label ⟨⟩
    exact ⟨target, htarget, hmax⟩

/-- Slots that can all be resolved become their words, and all labels among them
are bound to addresses that fit into a word. -/
theorem mapM_resolveSlot {held : List Operand} {words : List Int32}
    (h : held.mapM builder.resolveSlot = .ok words) :
    words = held.map builder.wordOf ∧
      ∀ label, .label label ∈ held →
        ∃ target, builder.target? label = some target ∧ target ≤ maxAddress := by
  induction held generalizing words with
  | nil =>
    cases h
    simp
  | cons slot held ih =>
    rw [List.mapM_cons] at h
    obtain ⟨word, hslot, h⟩ := exists_of_bind_eq_ok h
    obtain ⟨rest, hrest, h⟩ := exists_of_bind_eq_ok h
    have hcons : word :: rest = words := Except.ok.inj h
    obtain ⟨hword, hlabel⟩ := resolveSlot_eq_ok hslot
    obtain ⟨hwords, hbound⟩ := ih hrest
    refine ⟨by rw [← hcons, hword, hwords, List.map_cons], ?_⟩
    intro label hmem
    obtain heq | hmem := List.mem_cons.mp hmem
    · exact hlabel label heq
    · exact hbound label hmem

/-- A builder made by calls that added instructions: its slots are those of the
instructions, and every label that is bound is bound between two of them. -/
structure Built (builder : Builder) (body : List (Opcode × List Operand)) : Prop where
  /-- The builder holds the slots of the instructions. -/
  holds : builder.Holds (slots body)
  /-- Every instruction has the operands its opcode asks for. -/
  counts : ∀ added ∈ body, added.2.length = added.1.operandCount
  /-- A label is bound to the address behind some of the instructions. -/
  bound : ∀ label target, builder.target? label = some target →
    ∃ before, before <+: body ∧ target = (slots before).length

variable {body : List (Opcode × List Operand)}

/-- Instructions one after the other have their slots one after the other. -/
theorem slots_append (first second : List (Opcode × List Operand)) :
    slots (first ++ second) = slots first ++ slots second :=
  List.flatMap_append

/-- A mistake that is recorded changes nothing else. -/
theorem Built.record (h : builder.Built body) (mistake : BuildError) :
    (builder.record mistake).Built body :=
  { holds := ⟨h.holds.code, h.holds.patches⟩
    counts := h.counts
    bound := h.bound }

/-- An instruction is added, or a mistake is recorded. -/
theorem Built.instruction (h : builder.Built body) (opcode : Opcode) (operands : List Operand) :
    (builder.instruction opcode operands).Built
      (body ++ ((some (opcode, operands)).filter
        fun asked => asked.2.length = asked.1.operandCount).toList) := by
  by_cases hcount : operands.length = opcode.operandCount
  · obtain ⟨hholds, hlabels, -⟩ := h.holds.instruction hcount
    simp only [Option.filter_some, hcount, decide_true, if_true, Option.toList_some]
    refine ⟨?_, ?_, ?_⟩
    · rwa [slots_append]
    · intro added hadded
      rcases List.mem_append.mp hadded with hadded | hadded
      · exact h.counts added hadded
      · rw [List.mem_singleton.mp hadded]
        exact hcount
    · intro label target htarget
      rw [target?, hlabels] at htarget
      obtain ⟨before, hbefore, heq⟩ := h.bound label target htarget
      exact ⟨before, hbefore.trans (List.prefix_append body _), heq⟩
  · have hrecord := h.record (.operandCount opcode operands.length builder.address)
    unfold Builder.instruction
    simp only [hcount, if_false, Option.filter_some, decide_false, Bool.false_eq_true,
      Option.toList_none, List.append_nil]
    exact hrecord

/-- A new label is not bound. -/
theorem Built.newLabel (h : builder.Built body) : builder.newLabel.2.Built body := by
  refine ⟨⟨h.holds.code, h.holds.patches⟩, h.counts, ?_⟩
  intro label target htarget
  rw [target?_newLabel] at htarget
  exact h.bound label target htarget

/-- A label is bound to the address behind all instructions so far. -/
theorem Built.bind (h : builder.Built body) (label : Label) : (builder.bind label).Built body := by
  have hkept : (builder.bind label).code = builder.code ∧
      (builder.bind label).patches = builder.patches := by
    unfold Builder.bind
    split <;> exact ⟨rfl, rfl⟩
  refine ⟨⟨hkept.1 ▸ h.holds.code, hkept.2 ▸ h.holds.patches⟩, h.counts, ?_⟩
  intro other target htarget
  rcases target?_bind.mp htarget with hbefore | ⟨-, -, -, hnow⟩
  · exact h.bound other target hbefore
  · exact ⟨body, List.prefix_rfl, hnow.trans h.holds.address_eq⟩

/-- A call adds its instruction and keeps the rest. -/
theorem Built.call (h : builder.Built body) (call : Call) :
    (builder.call call).Built (body ++ call.added) := by
  cases hasked : call.instruction? with
  | some asked =>
    obtain ⟨opcode, operands⟩ := asked
    rw [call_of_instruction? hasked, Call.added, hasked]
    exact h.instruction opcode operands
  | none =>
    have hnothing : call.added = [] := by rw [Call.added, hasked]; rfl
    rw [hnothing, List.append_nil]
    cases call with
    | newLabel => exact h.newLabel
    | bind label => exact h.bind label
    | _ => contradiction

/-- Calls add their instructions, one after the other. -/
theorem Built.callAll (h : builder.Built body) (calls : List Call) :
    (builder.callAll calls).Built (body ++ calls.flatMap Call.added) := by
  induction calls generalizing builder body with
  | nil => simpa [Builder.callAll] using h
  | cons call calls ih =>
    have hrest := ih (h.call call)
    rw [List.append_assoc] at hrest
    exact hrest

/-- A new builder has no instructions. -/
theorem built_empty : Builder.Built {} [] :=
  { holds := ⟨rfl, rfl⟩
    counts := by simp
    bound := by simp [target?] }

/-- A program that is finished holds its slots as words, and all labels among them
are bound to addresses that fit into a word. -/
theorem Built.finish (h : builder.Built body) {code : Array Int32}
    (hcode : builder.finish = .ok code) :
    code.toList = (slots body).map builder.wordOf ∧
      ∀ label, .label label ∈ slots body →
        ∃ target, builder.target? label = some target ∧ target ≤ maxAddress := by
  have herror : builder.error = none := by
    unfold Builder.finish at hcode
    split at hcode
    · contradiction
    · assumption
  rw [h.holds.finish_eq herror] at hcode
  cases hwords : (slots body).mapM builder.resolveSlot with
  | error mistake =>
    rw [hwords] at hcode
    contradiction
  | ok words =>
    rw [hwords] at hcode
    cases hcode
    exact mapM_resolveSlot hwords

end Builder

end LanguageKit
