import LanguageKit.Proofs.Relocation

/-!
# Programs with labels can be moved

A program whose jumps all go to labels, and which uses labels for nothing else, may be built
behind any number of instructions that do nothing. The same calls then bind every label
further on by that number, and leave all other words as they are. So the machine that has
passed the instructions in front does, step by step, what it does without them.
-/

namespace LanguageKit

/-- The operands of an instruction that are no address: all but the last of a jump. -/
def Opcode.plainOperands (opcode : Opcode) (operands : List Operand) : List Operand :=
  if opcode.jumps then operands.dropLast else operands

/-- A call that adds an instruction uses labels as addresses of jumps only. -/
def Builder.Call.LabelsAreAddresses (call : Builder.Call) : Prop :=
  ∀ added ∈ call.added, ∀ operand ∈ added.1.plainOperands added.2, operand.isLabel = false

/-- Whether a call uses labels as addresses only can be decided. -/
instance : DecidablePred Builder.Call.LabelsAreAddresses := fun call =>
  inferInstanceAs
    (Decidable (∀ added ∈ call.added, ∀ operand ∈ added.1.plainOperands added.2,
      operand.isLabel = false))

/-- An instruction of a program where everything stands further on by a distance. -/
def Instruction.move (distance : Nat) (instruction : Instruction) : Instruction :=
  (instruction.1, instruction.1.moveOperands distance instruction.2)

/-- Instructions that do nothing. -/
def idleInstructions (count : Nat) : List Instruction := List.replicate count (.nop, [])

/-- An instruction has as many operands further on. -/
theorem Opcode.length_moveOperands (opcode : Opcode) (distance : Nat) (operands : List Int32) :
    (opcode.moveOperands distance operands).length = operands.length := by
  unfold moveOperands
  split
  · rcases List.eq_nil_or_concat operands with rfl | ⟨front, last, rfl⟩
    · rfl
    · simp only [List.concat_eq_append, List.dropLast_concat, List.getLast?_concat,
        Option.toList_some, List.map_singleton, List.length_append, List.length_singleton]
  · rfl

/-- Instructions have as many words further on. -/
theorem length_wordsOf_move (distance : Nat) (body : List Instruction) :
    (wordsOf (body.map (Instruction.move distance))).length = (wordsOf body).length := by
  induction body with
  | nil => rfl
  | cons instruction body ih =>
    have hlength := instruction.1.length_moveOperands distance instruction.2
    simp only [wordsOf, List.map_cons, List.flatMap_cons, List.length_append, List.length_cons,
      Instruction.move] at ih ⊢
    omega

/-- Instructions that do nothing have one word each. -/
theorem wordsOf_idle (count : Nat) :
    wordsOf (idleInstructions count) = List.replicate count Opcode.nop.word := by
  induction count with
  | zero => rfl
  | succ count ih =>
    simp only [wordsOf, idleInstructions, List.replicate_succ, List.flatMap_cons] at ih ⊢
    rw [ih]
    rfl

namespace Builder

variable {builder late : Builder} {distance : Nat}

/-- A builder that has made the same labels as another one, and has bound them further on
by a distance, as its next instruction is. -/
structure Trails (distance : Nat) (builder late : Builder) : Prop where
  /-- The next instruction stands further on. -/
  address : late.address = builder.address + distance
  /-- The labels are bound further on. -/
  labels : late.labels = builder.labels.map (Option.map (· + distance))

/-- A label is bound further on, if it is bound. -/
theorem Trails.target?_eq (h : Trails distance builder late) (label : Label) :
    late.target? label = (builder.target? label).map (· + distance) := by
  rw [target?, target?, h.labels, Array.getElem?_map]
  cases builder.labels[label.number]? with
  | none => rfl
  | some bound => cases bound <;> rfl

/-- Adding operands makes the code longer by their number. -/
theorem address_addOperands (operands : List Operand) (builder : Builder) :
    (operands.foldl addOperand builder).address = builder.address + operands.length := by
  induction operands generalizing builder with
  | nil => rfl
  | cons operand operands ih =>
    have hone : (builder.addOperand operand).address = builder.address + 1 := by
      cases operand <;> exact Array.size_push _
    rw [List.foldl_cons, ih, hone, List.length_cons]
    omega

/-- An instruction makes the code longer by its words, if the number of operands is right. -/
theorem address_instruction (builder : Builder) (opcode : Opcode) (operands : List Operand) :
    (builder.instruction opcode operands).address = builder.address +
      (if operands.length = opcode.operandCount then 1 + operands.length else 0) := by
  unfold Builder.instruction
  split
  · have hword : (builder.addWord opcode.word).address = builder.address + 1 := Array.size_push _
    rw [address_addOperands, hword]
    omega
  · rfl

/-- A label is made by both builders. -/
theorem Trails.newLabel (h : Trails distance builder late) :
    Trails distance builder.newLabel.2 late.newLabel.2 := by
  have hpush : late.labels.push none =
      (builder.labels.push none).map (Option.map (· + distance)) := by
    rw [Array.map_push, h.labels, Option.map_none]
  exact ⟨h.address, hpush⟩

/-- Binding a label binds it further on in the other builder. -/
theorem Trails.bind (h : Trails distance builder late) (label : Label) :
    Trails distance (builder.bind label) (late.bind label) := by
  have hbound : late.labels[label.number]? =
      builder.labels[label.number]?.map (Option.map (· + distance)) := by
    rw [h.labels, Array.getElem?_map]
  unfold Builder.bind
  rw [hbound]
  cases builder.labels[label.number]? with
  | none => exact ⟨h.address, h.labels⟩
  | some bound =>
    cases bound with
    | some target => exact ⟨h.address, h.labels⟩
    | none =>
      refine ⟨h.address, ?_⟩
      dsimp only [Option.map_some, Option.map_none]
      rw [h.address, h.labels, Array.map_setIfInBounds, Option.map_some]

/-- A call keeps the builders apart by the same distance. -/
theorem Trails.call (h : Trails distance builder late) (call : Call) :
    Trails distance (builder.call call) (late.call call) := by
  cases hasked : call.instruction? with
  | some asked =>
    obtain ⟨opcode, operands⟩ := asked
    rw [call_of_instruction? hasked, call_of_instruction? hasked]
    refine ⟨?_, ?_⟩
    · rw [address_instruction, address_instruction, h.address]
      omega
    · rw [labels_instruction, labels_instruction, h.labels]
  | none =>
    cases call with
    | newLabel => exact h.newLabel
    | bind label => exact h.bind label
    | _ => contradiction

/-- Calls keep the builders apart by the same distance. -/
theorem Trails.callAll (h : Trails distance builder late) (calls : List Call) :
    Trails distance (builder.callAll calls) (late.callAll calls) := by
  induction calls generalizing builder late with
  | nil => exact h
  | cons call calls ih => exact ih (h.call call)

/-- Instructions that do nothing have one word each, and bind no labels. -/
theorem callAll_idle (distance : Nat) :
    (Builder.callAll {} (List.replicate distance (.op .nop))).address = distance ∧
      (Builder.callAll {} (List.replicate distance (.op .nop))).labels = #[] := by
  induction distance with
  | zero => exact ⟨rfl, rfl⟩
  | succ distance ih =>
    have hlast : Builder.callAll {} (List.replicate (distance + 1) (.op .nop)) =
        (Builder.callAll {} (List.replicate distance (.op .nop))).instruction .nop [] := by
      rw [List.replicate_succ', Builder.callAll, List.foldl_append]
      rfl
    rw [hlast, address_instruction, labels_instruction]
    exact ⟨congrArg (· + 1) ih.1, ih.2⟩

/-- Instructions that do nothing set a new builder apart from another one. -/
theorem trails_idle (distance : Nat) :
    Trails distance {} (Builder.callAll {} (List.replicate distance (.op .nop))) := by
  obtain ⟨haddress, hlabels⟩ := callAll_idle distance
  refine ⟨haddress.trans (Nat.zero_add distance).symm, ?_⟩
  rw [hlabels, Array.map_empty]

/-- An operand that is no label becomes the same word in every program. -/
theorem wordOf_of_not_label {operand : Operand} (h : operand.isLabel = false) :
    late.wordOf operand = builder.wordOf operand := by
  cases operand with
  | word word => rfl
  | label label => contradiction

/-- A label that is bound becomes a word that is greater by the distance. -/
theorem Trails.wordOf_label (h : Trails distance builder late) {label : Label} {target : Nat}
    (htarget : builder.target? label = some target) :
    late.wordOf (.label label) = builder.wordOf (.label label) + Int32.ofNat distance := by
  rw [wordOf, wordOf, h.target?_eq, htarget, Option.map_some, Option.getD_some, Option.getD_some,
    Int32.ofNat_add]

/-- The operands of an instruction become those of the instruction further on, if labels are
the addresses of jumps and nothing else. -/
theorem Trails.operands_eq (h : Trails distance builder late) {opcode : Opcode}
    {operands : List Operand}
    (hjumps : opcode.jumps = true → operands.getLast?.any Operand.isLabel = true)
    (hplain : ∀ operand ∈ opcode.plainOperands operands, operand.isLabel = false)
    (hbound : ∀ label, .label label ∈ operands → ∃ target, builder.target? label = some target) :
    operands.map late.wordOf = opcode.moveOperands distance (operands.map builder.wordOf) := by
  unfold Opcode.plainOperands at hplain
  unfold Opcode.moveOperands
  by_cases hjump : opcode.jumps = true
  · rw [if_pos hjump] at hplain ⊢
    obtain ⟨last, hlast, hlabel⟩ := (Option.any_eq_true _ _).mp (hjumps hjump)
    obtain ⟨front, rfl⟩ := List.getLast?_eq_some_iff.mp hlast
    rw [List.dropLast_concat] at hplain
    have hfront : front.map late.wordOf = front.map builder.wordOf :=
      List.map_congr_left fun operand hmem => wordOf_of_not_label (hplain operand hmem)
    cases last with
    | word word => contradiction
    | label label =>
      obtain ⟨target, htarget⟩ := hbound label (List.mem_append_right front List.mem_cons_self)
      rw [List.map_append, List.map_append, List.map_singleton, List.map_singleton,
        List.dropLast_concat, List.getLast?_concat, Option.toList_some, List.map_singleton, hfront,
        h.wordOf_label htarget]
  · rw [if_neg hjump] at hplain ⊢
    exact List.map_congr_left fun operand hmem => wordOf_of_not_label (hplain operand hmem)

end Builder

/-- A program made of instructions, and the same instructions further on in another program,
behind as many that do nothing. -/
structure Relocated (distance : Nat) (code moved : Array Int32) (body : List Instruction) :
    Prop where
  /-- The program is cut into the instructions. -/
  sectioned : Sectioned code body
  /-- The other program holds them behind those that do nothing. -/
  words : moved.toList =
    wordsOf (idleInstructions distance ++ body.map (Instruction.move distance))
  /-- The addresses of jumps can be moved. -/
  targets : ∀ instruction ∈ body, instruction.1.jumps = true →
    ∀ target, instruction.2.getLast? = some target → MovesBy distance target

namespace Builder

variable {builder late : Builder} {distance : Nat}

/-- The instructions that do nothing are added as such. -/
theorem flatMap_added_idle (distance : Nat) :
    (List.replicate distance (Call.op .nop)).flatMap Call.added =
      List.replicate distance (.nop, []) := by
  induction distance with
  | zero => rfl
  | succ distance ih =>
    rw [List.replicate_succ, List.flatMap_cons, ih, List.replicate_succ]
    rfl

/-- An address that is small enough further on can be moved. -/
theorem movesBy_ofNat {target : Nat} (h : target + distance ≤ maxAddress) :
    MovesBy distance (Int32.ofNat target) := by
  have hnear : (Int32.ofNat target).toInt = target := toInt_ofNat_of_le_maxAddress (by omega)
  have hfar := toInt_ofNat_of_le_maxAddress h
  rw [Int32.ofNat_add] at hfar
  exact ⟨by rw [hfar, hnear]; omega, .inl (by omega)⟩

/-- If both builders finish, a label that is used is bound, and to an address that is small
enough further on. -/
theorem Trails.exists_target (h : Trails distance builder late)
    {front body : List (Opcode × List Operand)} (hbuilt : builder.Built body)
    (hlate : late.Built (front ++ body)) {code moved : Array Int32}
    (hcode : builder.finish = .ok code) (hmoved : late.finish = .ok moved)
    {added : Opcode × List Operand} (hadded : added ∈ body) {label : Label}
    (hlabel : .label label ∈ added.2) :
    ∃ target, builder.target? label = some target ∧ target + distance ≤ maxAddress := by
  have hslot : Operand.label label ∈ slots body :=
    List.mem_flatMap.mpr ⟨added, hadded, List.mem_cons_of_mem _ hlabel⟩
  have hlateSlot : Operand.label label ∈ slots (front ++ body) := by
    rw [slots_append]
    exact List.mem_append_right _ hslot
  obtain ⟨target, htarget, -⟩ := (hbuilt.finish hcode).2 label hslot
  obtain ⟨last, hlast, hmax⟩ := (hlate.finish hmoved).2 label hlateSlot
  rw [h.target?_eq, htarget, Option.map_some] at hlast
  have hsame : target + distance = last := Option.some.inj hlast
  exact ⟨target, htarget, hsame ▸ hmax⟩

/-- Two programs that builders have finished at a distance from each other hold the same
instructions, moved by that distance. -/
theorem Trails.relocated (h : Trails distance builder late)
    {body : List (Opcode × List Operand)} (hbuilt : builder.Built body)
    (hlate : late.Built (List.replicate distance (.nop, []) ++ body)) {code moved : Array Int32}
    (hcode : builder.finish = .ok code) (hmoved : late.finish = .ok moved)
    (hjumps : ∀ added ∈ body, added.1.jumps = true →
      added.2.getLast?.any Operand.isLabel = true)
    (hplain : ∀ added ∈ body, ∀ operand ∈ added.1.plainOperands added.2,
      operand.isLabel = false) :
    Relocated distance code moved (builder.instructionsOf body) := by
  have hinstructions : late.instructionsOf (List.replicate distance (.nop, []) ++ body) =
      idleInstructions distance ++
        (builder.instructionsOf body).map (Instruction.move distance) := by
    unfold instructionsOf idleInstructions
    rw [List.map_append, List.map_replicate, List.map_map]
    refine congrArg (_ ++ ·) (List.map_congr_left fun added hadded => ?_)
    have hoperands := h.operands_eq (hjumps added hadded) (hplain added hadded) fun label hlabel =>
      (h.exists_target hbuilt hlate hcode hmoved hadded hlabel).imp fun _ htarget => htarget.1
    exact congrArg (Prod.mk added.1) hoperands
  refine ⟨hbuilt.sectioned hcode hjumps, ?_, ?_⟩
  · rw [(hlate.finish hmoved).1, ← wordsOf_instructionsOf, hinstructions]
  · intro instruction hinstruction hjump word hword
    obtain ⟨added, hadded, rfl⟩ := List.mem_map.mp hinstruction
    obtain ⟨last, hlast, hlabel⟩ := (Option.any_eq_true _ _).mp (hjumps added hadded hjump)
    cases last with
    | word known => contradiction
    | label label =>
      obtain ⟨target, htarget, hmax⟩ :=
        h.exists_target hbuilt hlate hcode hmoved hadded (List.mem_of_getLast? hlast)
      rw [List.getLast?_map, hlast, Option.map_some, wordOf, htarget, Option.getD_some] at hword
      cases hword
      exact movesBy_ofNat hmax

/-- A program with labels as addresses of all jumps, and for nothing else, is moved by
instructions in front of it that do nothing. -/
theorem exists_relocated {calls : List Call} (hjumps : ∀ call ∈ calls, call.JumpsToLabel)
    (hplain : ∀ call ∈ calls, call.LabelsAreAddresses) {code moved : Array Int32}
    (hcode : (Builder.callAll {} calls).finish = .ok code)
    (hmoved : (Builder.callAll {} (List.replicate distance (.op .nop) ++ calls)).finish =
      .ok moved) :
    ∃ body, Relocated distance code moved body := by
  have hsplit : Builder.callAll {} (List.replicate distance (.op .nop) ++ calls) =
      (Builder.callAll {} (List.replicate distance (.op .nop))).callAll calls :=
    List.foldl_append
  have hbuilt := built_empty.callAll calls
  have hlate := (built_empty.callAll (List.replicate distance (.op .nop))).callAll calls
  rw [List.nil_append] at hbuilt hlate
  rw [flatMap_added_idle] at hlate
  rw [hsplit] at hmoved
  refine ⟨_, ((trails_idle distance).callAll calls).relocated hbuilt hlate hcode hmoved ?_ ?_⟩
  · intro added hadded
    obtain ⟨call, hcall, hadded⟩ := List.mem_flatMap.mp hadded
    exact hjumps call hcall added hadded
  · intro added hadded
    obtain ⟨call, hcall, hadded⟩ := List.mem_flatMap.mp hadded
    exact hplain call hcall added hadded

end Builder

namespace Relocated

variable {distance : Nat} {code moved : Array Int32} {body : List Instruction}

/-- The other program is longer by the instructions that do nothing. -/
theorem size_eq (h : Relocated distance code moved body) : moved.size = code.size + distance := by
  have hcode := congrArg List.length h.sectioned.words
  have hmoved := congrArg List.length h.words
  rw [wordsOf_append, List.length_append, length_wordsOf_move, wordsOf_idle,
    List.length_replicate] at hmoved
  rw [Array.length_toList] at hcode hmoved
  omega

/-- The other program begins with instructions that do nothing. -/
theorem getElem?_idle (h : Relocated distance code moved body) {place : Nat}
    (hplace : place < distance) : moved[place]? = some Opcode.nop.word := by
  rw [← Array.getElem?_toList, h.words, wordsOf_append, wordsOf_idle,
    List.getElem?_append_left (by rwa [List.length_replicate]), List.getElem?_replicate,
    if_pos hplace]

variable {before rest : List Instruction} {instruction : Instruction}

/-- The words of an instruction stand in the other program further on by the distance. -/
theorem prefix_drop (h : Relocated distance code moved (before ++ instruction :: rest)) :
    instruction.1.word :: instruction.1.moveOperands distance instruction.2 <+:
      moved.toList.drop ((wordsOf before).length + distance) := by
  have hwords : moved.toList =
      (wordsOf (idleInstructions distance) ++ wordsOf (before.map (Instruction.move distance))) ++
        ((instruction.1.word :: instruction.1.moveOperands distance instruction.2) ++
          wordsOf (rest.map (Instruction.move distance))) := by
    rw [h.words, List.map_append, wordsOf_append, wordsOf_append, ← List.append_assoc]
    rfl
  have hlength : (wordsOf before).length + distance = (wordsOf (idleInstructions distance) ++
      wordsOf (before.map (Instruction.move distance))).length := by
    rw [List.length_append, length_wordsOf_move, wordsOf_idle, List.length_replicate, Nat.add_comm]
  rw [hwords, hlength, List.drop_left]
  exact List.prefix_append _ _

end Relocated

/-- The words of an instruction stand in a program behind those of the instructions
before it. -/
theorem Sectioned.prefix_drop {code : Array Int32} {before rest : List Instruction}
    {instruction : Instruction} (h : Sectioned code (before ++ instruction :: rest)) :
    instruction.1.word :: instruction.2 <+: code.toList.drop (wordsOf before).length := by
  have hwords : code.toList =
      wordsOf before ++ ((instruction.1.word :: instruction.2) ++ wordsOf rest) := by
    rw [h.words, wordsOf_append]
    rfl
  rw [hwords, List.drop_left]
  exact List.prefix_append _ _

namespace Machine

variable {ω : Type} [Output ω] {distance : Nat} {code moved : Array Int32}
  {body : List Instruction}

/-- In silence, a step from between two instructions does the same in the other program,
further on. -/
theorem step_relocated (h : Relocated distance code moved body) {machine : Machine ω}
    (hmachine : Between code body machine) (hsilent : machine.tracing = false) :
    (machine.relocate moved distance).step = relocateOutcome moved distance machine.step := by
  by_cases hhalted : machine.halted = true
  · rw [step_of_halted machine hhalted, step_of_halted (machine.relocate moved distance) hhalted]
    rfl
  have hrunning : machine.halted = false := eq_false_of_ne_true hhalted
  obtain ⟨before, ⟨rest, rfl⟩, hat⟩ := hmachine
  cases rest with
  | nil =>
    have hlength : machine.pc = code.size := by
      rw [hat.pc, ← Array.length_toList, h.sectioned.words, List.append_nil]
    have hend : machine.code[machine.pc]? = none := by
      rw [hat.code]
      exact Array.getElem?_eq_none (Nat.le_of_eq hlength.symm)
    have hlater : moved[machine.pc + distance]? = none :=
      Array.getElem?_eq_none (by rw [h.size_eq, hlength])
    rw [step_of_outside machine hrunning hend,
      step_of_outside (machine.relocate moved distance) hrunning hlater, hat.code]
    have haddress : (machine.relocate moved distance).pc = machine.pc + distance := rfl
    have hsize : (machine.relocate moved distance).code.size = code.size + distance := h.size_eq
    rw [haddress, hsize, Int.natCast_add]
    rfl
  | cons instruction rest =>
    have hahead : machine.Ahead (instruction.1.word :: instruction.2) := by
      rw [Ahead, hat.code, hat.pc]
      exact h.sectioned.prefix_drop
    have hmoved : (machine.relocate moved distance).Ahead
        (instruction.1.word :: instruction.1.moveOperands distance instruction.2) := by
      have hplace : (machine.relocate moved distance).pc = (wordsOf before).length + distance :=
        congrArg (· + distance) hat.pc
      rw [Ahead, hplace]
      exact h.prefix_drop
    have hmem : instruction ∈ before ++ instruction :: rest :=
      List.mem_append_right before List.mem_cons_self
    have hsize : moved.size = machine.code.size + distance := by rw [hat.code, h.size_eq]
    exact step_relocate instruction.1 hsilent hrunning (h.sectioned.counts instruction hmem)
      hahead hmoved hsize (h.targets instruction hmem)

/-- Without a fault before them, calls of a step lead from the start of a program to a place
between two of its instructions, and in the other program to the same place further on. -/
theorem afterCalls_relocated (h : Relocated distance code moved body) {machine : Machine ω}
    (hmachine : Between code body machine) (hsilent : machine.tracing = false) (count : Nat)
    (hrunning : ∀ earlier < count, ∃ progress,
      (machine.afterCalls earlier).step.1 = .ok progress) :
    Between code body (machine.afterCalls count) ∧
      (machine.afterCalls count).tracing = false ∧
      (machine.relocate moved distance).afterCalls count =
        (machine.afterCalls count).relocate moved distance := by
  induction count with
  | zero => exact ⟨hmachine, hsilent, rfl⟩
  | succ count ih =>
    obtain ⟨hbetween, hstill, hsame⟩ :=
      ih fun earlier hearlier => hrunning earlier (Nat.lt_succ_of_lt hearlier)
    obtain ⟨progress, hprogress⟩ := hrunning count (Nat.lt_succ_self count)
    have hstep := step_relocated h hbetween hstill
    have hproceeds := proceeds_step h.sectioned hbetween
    refine ⟨hproceeds.between progress hprogress, (tracing_step _).trans hstill, ?_⟩
    change ((machine.relocate moved distance).afterCalls count).step.2 = _
    rw [hsame, hstep]
    rfl

/-- An instruction that does nothing is passed. -/
theorem step_idle (h : Relocated distance code moved body) (sink : ω) {count : Nat}
    (hcount : count < distance) :
    { start moved false sink with pc := count, steps := count }.step =
      (.ok .running, { start moved false sink with pc := count + 1, steps := count + 1 }) := by
  have hstep := step_silent_opcode { start moved false sink with pc := count, steps := count }
    rfl rfl (h.getElem?_idle hcount) (Opcode.ofWord?_word .nop)
  rw [hstep]
  rfl

/-- The instructions that do nothing are passed one by one. -/
theorem afterCalls_idle (h : Relocated distance code moved body) (sink : ω) {count : Nat}
    (hcount : count ≤ distance) :
    (start moved false sink).afterCalls count =
      { start moved false sink with pc := count, steps := count } := by
  induction count with
  | zero => rfl
  | succ count ih =>
    change ((start moved false sink).afterCalls count).step.2 = _
    rw [ih (Nat.le_of_succ_le hcount), step_idle h sink (Nat.lt_of_succ_le hcount)]

/-- Calls of a step after other calls are calls that go on with their number. -/
theorem afterCalls_add (machine : Machine ω) (first second : Nat) :
    machine.afterCalls (first + second) = (machine.afterCalls first).afterCalls second := by
  induction second with
  | zero => rfl
  | succ second ih =>
    change (machine.afterCalls (first + second)).step.2 = _
    rw [ih]
    rfl

end Machine

/-- A program whose jumps all go to labels, and which uses labels for nothing else, can be
moved. Built behind instructions that do nothing, it is longer by their number, they are
passed one by one, and from then on every step up to the first fault brings the same, with
all addresses in a fault greater by that number. The machine goes on with the same stack,
registers and output, further on in the program, with as many steps more behind it. -/
theorem labelled_program_moves {calls : List Builder.Call}
    (hjumps : ∀ call ∈ calls, call.JumpsToLabel)
    (hplain : ∀ call ∈ calls, call.LabelsAreAddresses) (distance : Nat)
    {code moved : Array Int32} (hcode : (Builder.callAll {} calls).finish = .ok code)
    (hmoved : (Builder.callAll {} (List.replicate distance (.op .nop) ++ calls)).finish =
      .ok moved) {ω : Type} [Output ω] (sink : ω) (count : Nat)
    (hrunning : ∀ earlier < count, ∃ progress,
      ((Machine.start code false sink).afterCalls earlier).step.1 = .ok progress) :
    let plain := (Machine.start code false sink).afterCalls
    let late := (Machine.start moved false sink).afterCalls
    moved.size = code.size + distance ∧
      (∀ earlier < distance, (late earlier).step.1 = .ok .running) ∧
      late (distance + count) =
        { plain count with
          code := moved
          pc := (plain count).pc + distance
          steps := (plain count).steps + distance } ∧
      (late (distance + count)).step.1 = (plain count).step.1.mapError (Fault.shift distance) ∧
      late (distance + count + 1) =
        { plain (count + 1) with
          code := moved
          pc := (plain (count + 1)).pc + distance
          steps := (plain (count + 1)).steps + distance } := by
  intro plain late
  obtain ⟨body, hrelocated⟩ := Builder.exists_relocated hjumps hplain hcode hmoved
  have hstart : Machine.Between code body (Machine.start code false sink) :=
    ⟨[], List.nil_prefix, rfl, rfl⟩
  have hidle {earlier : Nat} (hearlier : earlier ≤ distance) :
      late earlier = { Machine.start moved false sink with pc := earlier, steps := earlier } :=
    Machine.afterCalls_idle hrelocated sink hearlier
  have hpassed : late distance = (Machine.start code false sink).relocate moved distance := by
    rw [hidle (Nat.le_refl distance), Machine.relocate, Machine.start, Machine.start]
    simp only [Nat.zero_add]
  obtain ⟨hbetween, hsilent, hsame⟩ :=
    Machine.afterCalls_relocated hrelocated hstart rfl count hrunning
  have hlate : late (distance + count) = (plain count).relocate moved distance := by
    have hadd : late (distance + count) = (late distance).afterCalls count :=
      Machine.afterCalls_add (Machine.start moved false sink) distance count
    rw [hadd, hpassed, hsame]
  have hstep : ((plain count).relocate moved distance).step =
      Machine.relocateOutcome moved distance (plain count).step :=
    Machine.step_relocated hrelocated hbetween hsilent
  refine ⟨hrelocated.size_eq, fun earlier hearlier => ?_, hlate, ?_, ?_⟩
  · rw [hidle (Nat.le_of_lt hearlier), Machine.step_idle hrelocated sink hearlier]
  · rw [hlate, hstep]
    rfl
  · change (late (distance + count)).step.2 = _
    rw [hlate, hstep]
    rfl

/-- The words of the loop behind two instructions that do nothing. -/
def movedLoopWords : Array Int32 := #[1, 1, 2, 7, 9, 7, 9, 11, 2]

/-- The third step of the loop leaves the program at its end, and so does the fifth of the
moved loop, which ends further on. -/
theorem labelled_program_moves_loop :
    (∀ call ∈ loopCalls, call.JumpsToLabel) ∧ (∀ call ∈ loopCalls, call.LabelsAreAddresses) ∧
      (Builder.callAll {} loopCalls).finish = .ok loopWords ∧
      (Builder.callAll {} (List.replicate 2 (.op .nop) ++ loopCalls)).finish =
        .ok movedLoopWords ∧
      (∀ earlier < 2, ∃ progress,
        ((Machine.start loopWords false ({} : Sink)).afterCalls earlier).step.1 = .ok progress) ∧
      ((Machine.start loopWords false ({} : Sink)).afterCalls 2).step.1 = .error (.outside 7 7) ∧
      ((Machine.start movedLoopWords false ({} : Sink)).afterCalls 4).step.1 =
        .error (.outside 9 9) ∧
      ((Machine.start movedLoopWords false ({} : Sink)).afterCalls 4).stack.toList = [7] := by
  have hjumps : ∀ call ∈ loopCalls, call.JumpsToLabel := by decide
  have hplain : ∀ call ∈ loopCalls, call.LabelsAreAddresses := by decide
  have hcode : (Builder.callAll {} loopCalls).finish = .ok loopWords := rfl
  have hmoved : (Builder.callAll {} (List.replicate 2 (.op .nop) ++ loopCalls)).finish =
      .ok movedLoopWords := rfl
  have hfirst : ((Machine.start loopWords false ({} : Sink)).afterCalls 0).step.1 =
      .ok .running := by decide +kernel
  have hsecond : ((Machine.start loopWords false ({} : Sink)).afterCalls 1).step.1 =
      .ok .running := by decide +kernel
  have hlast : ((Machine.start loopWords false ({} : Sink)).afterCalls 2).step.1 =
      .error (.outside 7 7) := by decide +kernel
  have hrunning : ∀ earlier < 2, ∃ progress,
      ((Machine.start loopWords false ({} : Sink)).afterCalls earlier).step.1 = .ok progress := by
    intro earlier hearlier
    obtain rfl | rfl : earlier = 0 ∨ earlier = 1 := by omega
    · exact ⟨_, hfirst⟩
    · exact ⟨_, hsecond⟩
  obtain ⟨-, -, hstate, hstep, -⟩ :=
    labelled_program_moves hjumps hplain 2 hcode hmoved ({} : Sink) 2 hrunning
  refine ⟨hjumps, hplain, hcode, hmoved, hrunning, hlast, ?_, ?_⟩
  · rw [hstep, hlast]
    rfl
  · rw [hstate]
    decide +kernel

end LanguageKit
