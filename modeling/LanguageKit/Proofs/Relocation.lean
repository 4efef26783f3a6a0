import LanguageKit.Proofs.Announcement
import LanguageKit.Proofs.InstructionBoundaries

/-!
# Instructions do not depend on where they stand

An instruction does the same in another program and further on in it, as long as the same
operands stand behind its opcode there. Only the address of a jump is different: it must be
further on by the same distance. Most parts of a step do not look at the program at all; the
others read the operands the machine stands in front of.
-/

namespace LanguageKit

/-- The same fault in a program where everything stands further on by a distance. -/
def Fault.shift (distance : Nat) : Fault → Fault
  | .outside target length => .outside (target + distance) (length + distance)
  | .missingOperand pc opcode => .missingOperand (pc + distance) opcode
  | .unknownOpcode pc word => .unknownOpcode (pc + distance) word
  | .stackUnderflow pc opcode => .stackUnderflow (pc + distance) opcode
  | .divideByZero pc opcode => .divideByZero (pc + distance) opcode
  | .refusedOutput pc refusal => .refusedOutput (pc + distance) refusal

/-- The operands of an instruction in a program where everything stands further on by a
distance: the address of a jump is greater. -/
def Opcode.moveOperands (opcode : Opcode) (distance : Nat) (operands : List Int32) : List Int32 :=
  if opcode.jumps then
    operands.dropLast ++ operands.getLast?.toList.map (· + Int32.ofNat distance)
  else operands

/-- The address of a jump that has just one operand is that operand. -/
theorem Opcode.moveOperands_single {opcode : Opcode} (h : opcode.jumps = true) (distance : Nat)
    (target : Int32) :
    opcode.moveOperands distance [target] = [target + Int32.ofNat distance] := by
  rw [moveOperands, if_pos h]
  rfl

/-- The address of a jump that has two operands is the second. -/
theorem Opcode.moveOperands_pair {opcode : Opcode} (h : opcode.jumps = true) (distance : Nat)
    (compared target : Int32) :
    opcode.moveOperands distance [compared, target] =
      [compared, target + Int32.ofNat distance] := by
  rw [moveOperands, if_pos h]
  rfl

/-- Nothing is moved by no distance. -/
theorem Opcode.moveOperands_zero (opcode : Opcode) (operands : List Int32) :
    opcode.moveOperands 0 operands = operands := by
  unfold moveOperands
  split
  · rcases List.eq_nil_or_concat operands with rfl | ⟨front, last, rfl⟩
    · rfl
    · have hlast : last + Int32.ofNat 0 = last := Int32.add_zero last
      simp only [List.concat_eq_append, List.dropLast_concat, List.getLast?_concat,
        Option.toList_some, List.map_singleton, hlast]
  · rfl

/-- An address that can be moved on by a distance without leaving the range of words. A
negative one leads nowhere and stays where it is. -/
def MovesBy (distance : Nat) (target : Int32) : Prop :=
  (target + Int32.ofNat distance).toInt = target.toInt + distance ∧
    (0 ≤ target.toInt ∨ distance = 0)

/-- Every address can be moved by no distance. -/
theorem movesBy_zero (target : Int32) : MovesBy 0 target := by
  have hsame : target + Int32.ofNat 0 = target := Int32.add_zero target
  exact ⟨by rw [hsame]; omega, .inr rfl⟩

namespace Machine

variable {ω α β : Type} {code : Array Int32} {distance : Nat}

/-- The machine in another program, where it stands further on by a distance and has
executed as many instructions more. -/
def relocate (machine : Machine ω) (code : Array Int32) (distance : Nat) : Machine ω :=
  { machine with code, pc := machine.pc + distance, steps := machine.steps + distance }

/-- What a step or a part of it brings in another program, further on by a distance. -/
def relocateOutcome (code : Array Int32) (distance : Nat)
    (outcome : Except Fault α × Machine ω) : Except Fault α × Machine ω :=
  (outcome.1.mapError (Fault.shift distance), outcome.2.relocate code distance)

/-- In another program at the same place only the program is another one. -/
theorem relocateOutcome_zero (code : Array Int32) (outcome : Except Fault α × Machine ω) :
    relocateOutcome code 0 outcome = (outcome.1, { outcome.2 with code }) := by
  obtain ⟨fault | answer, machine⟩ := outcome
  · have hsame : fault.shift 0 = fault := by
      cases fault <;> simp [Fault.shift]
    rw [relocateOutcome, Except.mapError, hsame]
    rfl
  · rfl

/-- A part of a step that does the same in another program, further on by a distance,
wherever the machine stands. -/
def Movable (code : Array Int32) (distance : Nat) (part moved : Exec ω α) : Prop :=
  ∀ machine : Machine ω, moved.run.run (machine.relocate code distance) =
    relocateOutcome code distance (part.run.run machine)

/-- Two parts in a row can be moved if both can. -/
theorem Movable.bind {part moved : Exec ω α} {rest movedRest : α → Exec ω β}
    (h : Movable code distance part moved)
    (hrest : ∀ answer, Movable code distance (rest answer) (movedRest answer)) :
    Movable code distance (part >>= rest) (moved >>= movedRest) := by
  intro machine
  rw [run_bind, run_bind, h machine]
  obtain ⟨fault | answer, next⟩ := part.run.run machine
  · rfl
  · exact hrest answer next

/-- Giving an answer can be moved. -/
theorem movable_pure (answer : α) :
    Movable (ω := ω) code distance (Pure.pure answer) (Pure.pure answer) :=
  fun _ => rfl

/-- A fault can be moved. -/
theorem movable_throw (fault : Fault) :
    Movable (ω := ω) (α := α) code distance (throw fault) (throw (fault.shift distance)) :=
  fun _ => rfl

/-- A change of the machine that does not look at the program can be moved. -/
theorem movable_modify {change : Machine ω → Machine ω}
    (h : ∀ machine, change (machine.relocate code distance) =
      (change machine).relocate code distance) :
    Movable code distance (modify change : Exec ω Unit) (modify change) :=
  fun machine => Prod.ext rfl (h machine)

variable (pc : Nat) (opcode : Opcode)

/-- Taking a word off the stack can be moved. -/
theorem movable_pop :
    Movable (ω := ω) code distance (pop pc opcode) (pop (pc + distance) opcode) := by
  intro machine
  rw [run_pop, run_pop]
  dsimp only [relocate]
  obtain ⟨_ | word, stack⟩ := machine.stack.pop <;> rfl

/-- Taking two words off the stack can be moved. -/
theorem movable_popPair :
    Movable (ω := ω) code distance (popPair pc opcode) (popPair (pc + distance) opcode) :=
  (movable_pop pc opcode).bind fun _ => (movable_pop pc opcode).bind fun _ => movable_pure _

/-- Taking a dividend and a divisor off the stack can be moved. -/
theorem movable_popDivision :
    Movable (ω := ω) code distance (popDivision pc opcode)
      (popDivision (pc + distance) opcode) := by
  refine (movable_popPair pc opcode).bind fun pair => ?_
  dsimp only
  split
  · exact movable_throw (.divideByZero pc opcode)
  · exact movable_pure _

/-- Putting a word on the stack can be moved. -/
theorem movable_push (word : Int32) : Movable (ω := ω) code distance (push word) (push word) :=
  movable_modify fun _ => rfl

/-- Filling the result registers can be moved. -/
theorem movable_setResults (low high : Int32) :
    Movable (ω := ω) code distance (setResults low high) (setResults low high) :=
  movable_modify fun _ => rfl

/-- A jump can be moved if its address can, in a program that is longer by the distance. -/
theorem run_jump_relocate (machine : Machine ω) (hsize : code.size = machine.code.size + distance)
    {target : Int32} (htarget : MovesBy distance target) :
    (jump (target + Int32.ofNat distance)).run.run (machine.relocate code distance) =
      relocateOutcome code distance ((jump target).run.run machine) := by
  obtain ⟨hmoved, hsign⟩ := htarget
  have hbelow (word : Int32) : word < 0 ↔ word.toInt < 0 := Int32.lt_iff_toInt_lt
  rw [run_jump, run_jump]
  -- A negative address leads nowhere, and stays negative only where nothing is moved.
  by_cases hnegative : target < 0
  · have hstart := (hbelow target).mp hnegative
    have hnone : distance = 0 := by omega
    have hlater : target + Int32.ofNat distance < 0 := (hbelow _).mpr (by omega)
    have hlength : (machine.relocate code distance).code.size = machine.code.size + distance :=
      hsize
    rw [if_pos hnegative, if_pos hlater, hlength, hmoved]
    rfl
  · have hstart := mt (hbelow target).mpr hnegative
    have hlater : ¬ target + Int32.ofNat distance < 0 := mt (hbelow _).mp (by omega)
    have haddress : (target.toInt + distance).toNat = target.toInt.toNat + distance := by omega
    rw [if_neg hnegative, if_neg hlater, hmoved, haddress]
    rfl

/-- The words that a machine stands in front of. -/
def Ahead (machine : Machine ω) (words : List Int32) : Prop :=
  words <+: machine.code.toList.drop machine.pc

/-- The first of the words ahead is the one the machine fetches next, and the others are
ahead behind it. -/
theorem Ahead.fetch {machine : Machine ω} {word : Int32} {rest : List Int32}
    (h : machine.Ahead (word :: rest)) :
    machine.code[machine.pc]? = some word ∧ { machine with pc := machine.pc + 1 }.Ahead rest := by
  obtain ⟨behind, hwords⟩ := h
  have hdrop := congrArg (List.drop 1) hwords
  have hhead := congrArg List.head? hwords
  rw [List.drop_drop] at hdrop
  rw [List.head?_drop, Array.getElem?_toList] at hhead
  exact ⟨hhead.symm, behind, hdrop⟩

/-- An operand that is ahead is read, and the machine goes on behind it. -/
theorem Ahead.run_operand_bind {machine : Machine ω} {word : Int32} {rest : List Int32}
    (h : machine.Ahead (word :: rest)) (next : Int32 → Exec ω α) :
    (operand pc opcode >>= next).run.run machine =
      (next word).run.run { machine with pc := machine.pc + 1 } := by
  rw [run_bind, run_operand, h.fetch.1]

/-- Going on by one word and moving on by a distance can be done in either order. -/
theorem relocate_next (machine : Machine ω) :
    ({ machine.relocate code distance with pc := (machine.relocate code distance).pc + 1 } :
        Machine ω) =
      ({ machine with pc := machine.pc + 1 } : Machine ω).relocate code distance := by
  have haddress : machine.pc + distance + 1 = machine.pc + 1 + distance := by omega
  simp only [relocate, haddress]

/-- Reading an operand can be moved if it stands at both places. -/
theorem run_operand_relocate {machine : Machine ω} {word moved : Int32}
    {rest movedRest : List Int32} (h : machine.Ahead (word :: rest))
    (hmoved : (machine.relocate code distance).Ahead (moved :: movedRest))
    {next movedNext : Int32 → Exec ω α}
    (hnext : { machine with pc := machine.pc + 1 }.Ahead rest →
      ({ machine with pc := machine.pc + 1 }.relocate code distance).Ahead movedRest →
      (movedNext moved).run.run ({ machine with pc := machine.pc + 1 }.relocate code distance) =
        relocateOutcome code distance ((next word).run.run { machine with pc := machine.pc + 1 })) :
    (operand (pc + distance) opcode >>= movedNext).run.run (machine.relocate code distance) =
      relocateOutcome code distance ((operand pc opcode >>= next).run.run machine) := by
  have hbehind := hmoved.fetch.2
  rw [relocate_next] at hbehind
  rw [hmoved.run_operand_bind, h.run_operand_bind, relocate_next]
  exact hnext h.fetch.2 hbehind

/-- A jump on a condition can be moved if its address can. -/
theorem run_branch_relocate {machine : Machine ω} {operands : List Int32}
    (hjumps : opcode.jumps = true) (hcount : operands.length = 2) (hahead : machine.Ahead operands)
    (hmoved : (machine.relocate code distance).Ahead (opcode.moveOperands distance operands))
    (hsize : code.size = machine.code.size + distance)
    (htarget : ∀ target, operands.getLast? = some target → MovesBy distance target)
    (onEqual : Bool) :
    (branch (pc + distance) opcode onEqual).run.run (machine.relocate code distance) =
      relocateOutcome code distance ((branch pc opcode onEqual).run.run machine) := by
  obtain ⟨compared, target, rfl⟩ := List.length_eq_two.mp hcount
  rw [Opcode.moveOperands_pair hjumps] at hmoved
  refine run_operand_relocate pc opcode hahead hmoved fun hnext hmovedNext => ?_
  refine run_operand_relocate pc opcode hnext hmovedNext fun _ _ => ?_
  rw [run_get_bind, run_get_bind]
  dsimp only [relocate]
  cases machine.stack.top? with
  | none => rfl
  | some top =>
    dsimp only
    split
    · exact run_jump_relocate { machine with pc := machine.pc + 1 + 1 } hsize
        (htarget target rfl)
    · rfl

/-- An instruction whose last part brings no answer can be moved if that part can. -/
theorem run_part_relocate {machine : Machine ω} {part moved : Exec ω Unit}
    (h : moved.run.run (machine.relocate code distance) =
      relocateOutcome code distance (part.run.run machine)) :
    (do moved; return Progress.running : Exec ω Progress).run.run
        (machine.relocate code distance) =
      relocateOutcome code distance
        ((do part; return Progress.running : Exec ω Progress).run.run machine) := by
  rw [run_bind, run_bind, h]
  obtain ⟨_ | _, next⟩ := part.run.run machine <;> rfl

variable [Output ω]

/-- A comparison takes its word off the stack before it reads its operand. -/
theorem execute_slt : execute (ω := ω) pc .slt =
    pop pc .slt >>= fun compared => operand pc .slt >>= fun bound =>
      push (if compared < bound then 1 else 0) >>= fun _ => Pure.pure .running :=
  rfl

/-- Writing to the output can be moved. -/
theorem movable_write (text : String) :
    Movable (ω := ω) code distance (write pc text) (write (pc + distance) text) := by
  intro machine
  rw [run_write_text, run_write_text]
  dsimp only [relocate]
  obtain ⟨_ | _, sink⟩ := Output.write machine.sink text <;> rfl

/-- An instruction without operands can be moved. -/
theorem movable_execute (h : opcode.operandCount = 0) :
    Movable (ω := ω) code distance (execute pc opcode) (execute (pc + distance) opcode) := by
  have hrunning : Movable (ω := ω) code distance (Pure.pure Progress.running)
      (Pure.pure Progress.running) := movable_pure _
  have hpush (word : Int32) : Movable (ω := ω) code distance
      (do push word; return Progress.running) (do push word; return Progress.running) :=
    (movable_push word).bind fun _ => hrunning
  have hset (low high : Int32) : Movable (ω := ω) code distance
      (do setResults low high; return Progress.running)
      (do setResults low high; return Progress.running) :=
    (movable_setResults low high).bind fun _ => hrunning
  cases opcode with
  | halt => exact (movable_modify fun _ => rfl).bind fun _ => movable_pure _
  | nop => exact hrunning
  | pop => exact (movable_pop pc _).bind fun _ => hrunning
  | add => exact (movable_popPair pc _).bind fun _ => hpush _
  | mul => exact (movable_popPair pc _).bind fun _ => hset _ _
  | div => exact (movable_popDivision pc _).bind fun _ => hset _ _
  | mod => exact (movable_popDivision pc _).bind fun _ => hpush _
  | print => exact (movable_pop pc _).bind fun _ => (movable_write pc _).bind fun _ => hrunning
  | sll => exact (movable_popPair pc _).bind fun _ => hpush _
  | srl => exact (movable_popPair pc _).bind fun _ => hpush _
  | push | jeq | jne | j | slt => contradiction

section Operands

variable {machine : Machine ω} {operands : List Int32}

/-- An instruction can be moved if its operands stand at both places, apart from the
address of a jump, which must be further on. -/
theorem execute_relocate (machine : Machine ω) (hcount : operands.length = opcode.operandCount)
    (hahead : machine.Ahead operands)
    (hmoved : (machine.relocate code distance).Ahead (opcode.moveOperands distance operands))
    (hsize : code.size = machine.code.size + distance)
    (htarget : opcode.jumps = true → ∀ target, operands.getLast? = some target →
      MovesBy distance target) :
    (execute (pc + distance) opcode).run.run (machine.relocate code distance) =
      relocateOutcome code distance ((execute pc opcode).run.run machine) := by
  have hpush (word : Int32) : Movable (ω := ω) code distance
      (do push word; return Progress.running) (do push word; return Progress.running) :=
    (movable_push word).bind fun _ => movable_pure _
  by_cases hnone : opcode.operandCount = 0
  · exact movable_execute pc opcode hnone machine
  cases opcode with
  | push =>
    obtain ⟨word, rfl⟩ := List.length_eq_one_iff.mp hcount
    exact run_operand_relocate pc .push hahead hmoved fun _ _ => hpush word _
  | slt =>
    obtain ⟨bound, rfl⟩ := List.length_eq_one_iff.mp hcount
    have hpop : (pop (pc + distance) .slt).run.run (machine.relocate code distance) =
        relocateOutcome code distance ((pop pc .slt).run.run machine) := movable_pop pc .slt machine
    rw [execute_slt, execute_slt, run_bind, run_bind, hpop, run_pop]
    obtain ⟨_ | compared, stack⟩ := machine.stack.pop
    · rfl
    · have hahead : Ahead { machine with stack } [bound] := hahead
      exact run_operand_relocate pc .slt hahead hmoved fun _ _ => hpush _ _
  | j =>
    obtain ⟨target, rfl⟩ := List.length_eq_one_iff.mp hcount
    rw [Opcode.moveOperands_single rfl] at hmoved
    refine run_operand_relocate pc .j hahead hmoved fun _ _ => ?_
    exact run_part_relocate (run_jump_relocate { machine with pc := machine.pc + 1 } hsize
      (htarget rfl target rfl))
  | jeq =>
    exact run_part_relocate
      (run_branch_relocate pc .jeq rfl hcount hahead hmoved hsize (htarget rfl) true)
  | jne =>
    exact run_part_relocate
      (run_branch_relocate pc .jne rfl hcount hahead hmoved hsize (htarget rfl) false)
  | _ => contradiction

/-- In silence, a step can be moved if its instruction stands at both places. -/
theorem step_relocate (hsilent : machine.tracing = false) (hrunning : machine.halted = false)
    (hcount : operands.length = opcode.operandCount)
    (hahead : machine.Ahead (opcode.word :: operands))
    (hmoved : (machine.relocate code distance).Ahead
      (opcode.word :: opcode.moveOperands distance operands))
    (hsize : code.size = machine.code.size + distance)
    (htarget : opcode.jumps = true → ∀ target, operands.getLast? = some target →
      MovesBy distance target) :
    (machine.relocate code distance).step = relocateOutcome code distance machine.step := by
  have hword := Opcode.ofWord?_word opcode
  have hbehind := hmoved.fetch.2
  rw [relocate_next] at hbehind
  have hexecute := execute_relocate machine.pc opcode machine.behindOpcode hcount hahead.fetch.2
    hbehind hsize htarget
  have hstart : machine.behindOpcode.relocate code distance =
      (machine.relocate code distance).behindOpcode := by
    have haddress : machine.pc + 1 + distance = machine.pc + distance + 1 := by omega
    have hsteps : machine.steps + 1 + distance = machine.steps + distance + 1 := by omega
    simp only [relocate, behindOpcode, haddress, hsteps]
  rw [step_silent_opcode (machine.relocate code distance) hsilent hrunning hmoved.fetch.1 hword,
    step_silent_opcode machine hsilent hrunning hahead.fetch.1 hword, ← hstart]
  exact hexecute

end Operands

end Machine

end LanguageKit
