import LanguageKit.Proofs.LabelPatching
import LanguageKit.Proofs.ListingRoundTrip
import LanguageKit.Proofs.StepLogic

/-!
# Machines stay between instructions

The code that a builder finishes is cut into instructions, and labels are bound
between them. A machine that runs such code begins in front of an instruction
and ends every step in front of another one or behind the last, as long as all
jumps go to labels. So it never takes an operand for an opcode, never misses an
operand, and can leave the program only at its end.
-/

namespace LanguageKit

/-- The opcodes whose last operand is an address. -/
def Opcode.jumps : Opcode → Bool
  | jeq | jne | j => true
  | _ => false

/-- Whether an operand is the address of a label. -/
def Operand.isLabel : Operand → Bool
  | .word _ => false
  | .label _ => true

/-- A call that adds a jump gives it a label as address. -/
def Builder.Call.JumpsToLabel (call : Builder.Call) : Prop :=
  ∀ added ∈ call.added, added.1.jumps = true → added.2.getLast?.any Operand.isLabel = true

/-- Whether the jumps of a call go to labels can be decided. -/
instance : DecidablePred Builder.Call.JumpsToLabel := fun call =>
  inferInstanceAs
    (Decidable (∀ added ∈ call.added, added.1.jumps = true →
      added.2.getLast?.any Operand.isLabel = true))

/-- An instruction of finished code: its opcode and its operands. -/
abbrev Instruction : Type := Opcode × List Int32

/-- The words of instructions. -/
def wordsOf (body : List Instruction) : List Int32 :=
  body.flatMap fun instruction => instruction.1.word :: instruction.2

/-- Instructions one after the other have their words one after the other. -/
theorem wordsOf_append (first second : List Instruction) :
    wordsOf (first ++ second) = wordsOf first ++ wordsOf second :=
  List.flatMap_append

/-- Code that is cut into instructions such that every jump goes to a place
between two of them. -/
structure Sectioned (code : Array Int32) (body : List Instruction) : Prop where
  /-- The code holds the words of the instructions. -/
  words : code.toList = wordsOf body
  /-- Every instruction has the operands its opcode asks for. -/
  counts : ∀ instruction ∈ body, instruction.2.length = instruction.1.operandCount
  /-- The address of a jump is that of a place behind some of the instructions. -/
  targets : ∀ instruction ∈ body, instruction.1.jumps = true →
    ∃ target, instruction.2.getLast? = some target ∧
      ∃ before, before <+: body ∧ target.toInt = ((wordsOf before).length : Int)

/-- The words of an instruction stand in the code behind those of the instructions
before it. -/
theorem Sectioned.getElem?_eq {code : Array Int32} {before rest : List Instruction}
    {instruction : Instruction} (h : Sectioned code (before ++ instruction :: rest)) :
    code[(wordsOf before).length]? = some instruction.1.word ∧
      ∀ place : Nat, place < instruction.2.length →
        code[(wordsOf before).length + 1 + place]? = instruction.2[place]? := by
  have hwords : code.toList =
      wordsOf before ++ instruction.1.word :: (instruction.2 ++ wordsOf rest) := by
    rw [h.words, wordsOf_append]
    rfl
  constructor
  · rw [← Array.getElem?_toList, hwords, List.getElem?_append_right (Nat.le_refl _)]
    simp
  · intro place hplace
    have hoffset : (wordsOf before).length + 1 + place - (wordsOf before).length = place + 1 := by
      omega
    rw [← Array.getElem?_toList, hwords, List.getElem?_append_right (by omega), hoffset,
      List.getElem?_cons_succ, List.getElem?_append_left hplace]

/-- Whole instructions are well formed. -/
theorem wellFormed_wordsOf {body : List Instruction}
    (h : ∀ instruction ∈ body, instruction.2.length = instruction.1.operandCount) :
    WellFormed (wordsOf body) := by
  induction body with
  | nil => exact WellFormed.nil
  | cons instruction body ih =>
    have hrest := ih fun other hother => h other (List.mem_cons_of_mem instruction hother)
    have hcount := h instruction List.mem_cons_self
    exact WellFormed.cons instruction.1 instruction.2 (wordsOf body) hcount hrest

namespace Builder

/-- An address that fits into a word is read back from the word. -/
theorem toInt_ofNat_of_le_maxAddress {target : Nat} (h : target ≤ maxAddress) :
    (Int32.ofNat target).toInt = (target : Int) := by
  unfold maxAddress at h
  rw [Int32.toInt_ofNat_of_lt]
  omega

variable {builder : Builder} {body : List (Opcode × List Operand)}

/-- The instructions of a finished program. -/
def instructionsOf (builder : Builder) (body : List (Opcode × List Operand)) :
    List Instruction :=
  body.map fun added => (added.1, added.2.map builder.wordOf)

/-- The words of the instructions are what the slots become. -/
theorem wordsOf_instructionsOf (builder : Builder) (body : List (Opcode × List Operand)) :
    wordsOf (builder.instructionsOf body) = (slots body).map builder.wordOf := by
  simp [wordsOf, instructionsOf, slots, List.flatMap_map, List.map_flatMap, wordOf]

/-- A label among the operands of the instructions becomes the address of a place
between two of them. -/
theorem Built.exists_place (h : builder.Built body) {code : Array Int32}
    (hcode : builder.finish = .ok code) {added : Opcode × List Operand} (hadded : added ∈ body)
    {label : Label} (hlabel : .label label ∈ added.2) :
    ∃ before, before <+: builder.instructionsOf body ∧
      (builder.wordOf (.label label)).toInt = ((wordsOf before).length : Int) := by
  have hslot : Operand.label label ∈ slots body :=
    List.mem_flatMap.mpr ⟨added, hadded, List.mem_cons_of_mem _ hlabel⟩
  obtain ⟨target, htarget, hmax⟩ := (h.finish hcode).2 label hslot
  obtain ⟨before, hbefore, hsize⟩ := h.bound label target htarget
  refine ⟨builder.instructionsOf before, hbefore.map _, ?_⟩
  rw [wordOf, htarget, Option.getD_some, toInt_ofNat_of_le_maxAddress hmax,
    wordsOf_instructionsOf, List.length_map, hsize]

/-- A program that a builder has finished, with labels as addresses of all jumps,
is cut into the instructions that were added. -/
theorem Built.sectioned (h : builder.Built body) {code : Array Int32}
    (hcode : builder.finish = .ok code)
    (hjumps : ∀ added ∈ body, added.1.jumps = true →
      added.2.getLast?.any Operand.isLabel = true) :
    Sectioned code (builder.instructionsOf body) := by
  refine ⟨?_, ?_, ?_⟩
  · rw [(h.finish hcode).1, wordsOf_instructionsOf]
  · intro instruction hinstruction
    obtain ⟨added, hadded, rfl⟩ := List.mem_map.mp hinstruction
    rw [List.length_map]
    exact h.counts added hadded
  · intro instruction hinstruction hjump
    obtain ⟨added, hadded, rfl⟩ := List.mem_map.mp hinstruction
    have hany := hjumps added hadded hjump
    rw [Option.any_eq_true] at hany
    obtain ⟨operand, hlast, hlabel⟩ := hany
    cases operand with
    | word word => contradiction
    | label label =>
      have hplace := h.exists_place hcode hadded (List.mem_of_getLast? hlast)
      exact ⟨_, by rw [List.getLast?_map, hlast, Option.map_some], hplace⟩

/-- A program that is built by calls with labels as addresses of all jumps is cut
into instructions. -/
theorem exists_sectioned {calls : List Call} (h : ∀ call ∈ calls, call.JumpsToLabel)
    {code : Array Int32} (hcode : (Builder.callAll {} calls).finish = .ok code) :
    ∃ body, Sectioned code body := by
  have hbuilt := built_empty.callAll calls
  rw [List.nil_append] at hbuilt
  refine ⟨_, hbuilt.sectioned hcode ?_⟩
  intro added hadded
  obtain ⟨call, hcall, hadded⟩ := List.mem_flatMap.mp hadded
  exact h call hcall added hadded

end Builder

/-- The faults that a program made of whole instructions can run into: it never
meets a word that is no opcode or misses an operand, and it leaves the program
only at its end. -/
def Fault.InOrder (size : Nat) : Fault → Prop
  | .unknownOpcode .. | .missingOperand .. => False
  | .outside target length => target = (size : Int) ∧ length = size
  | .stackUnderflow .. | .divideByZero .. | .refusedOutput .. => True

namespace Machine

variable {ω : Type} {code : Array Int32} {body : List Instruction}

/-- A machine that runs a program and stands at an address. -/
structure At (code : Array Int32) (address : Nat) (machine : Machine ω) : Prop where
  /-- The machine runs the program. -/
  code : machine.code = code
  /-- The machine goes on at the address. -/
  pc : machine.pc = address

/-- A machine that stands between two instructions of a program, in front of the
first or behind the last. -/
def Between (code : Array Int32) (body : List Instruction) (machine : Machine ω) : Prop :=
  ∃ before, before <+: body ∧ At code (wordsOf before).length machine

/-- A part of a step that stays at its address if all goes well. -/
abbrev Stays {α : Type} (code : Array Int32) (address : Nat) (part : Exec ω α) : Prop :=
  Ensures (At code address) part (fun _ => At code address) fun fault _ => fault.InOrder code.size

variable {address : Nat} {pc : Nat} {opcode : Opcode}

/-- An operand that the program has is read, and the machine goes on behind it. -/
theorem ensures_operand {word : Int32} (h : code[address]? = some word) :
    Ensures (At (ω := ω) code address) (operand pc opcode)
      (fun answer machine => answer = word ∧ At code (address + 1) machine)
      fun fault _ => fault.InOrder code.size := by
  refine Ensures.get fun machine hmachine => ?_
  have hword : machine.code[machine.pc]? = some word := by
    rw [hmachine.code, hmachine.pc, h]
  rw [hword]
  rintro seen rfl
  exact ⟨rfl, hmachine.code, by rw [← hmachine.pc]⟩

/-- What follows an operand that the program has goes on with it. -/
theorem ensures_operand_bind {α : Type} {word : Int32} {next : Int32 → Exec ω α}
    {last : α → Machine ω → Prop} (h : code[address]? = some word)
    (hnext : Ensures (At code (address + 1)) (next word) last
      fun fault _ => fault.InOrder code.size) :
    Ensures (At code address) (operand pc opcode >>= next) last
      fun fault _ => fault.InOrder code.size := by
  refine (ensures_operand h).bind fun answer => ?_
  rintro machine ⟨rfl, hmachine⟩
  exact hnext machine hmachine

/-- Taking a word off the stack. -/
theorem stays_pop : Stays code address (pop (ω := ω) pc opcode) := by
  refine Ensures.get fun machine hmachine => ?_
  split
  · exact Ensures.throw fun _ _ => trivial
  · rintro seen rfl
    exact ⟨hmachine.code, hmachine.pc⟩

/-- Taking two words off the stack. -/
theorem stays_popPair : Stays code address (popPair (ω := ω) pc opcode) := by
  refine stays_pop.bind fun second => ?_
  refine stays_pop.bind fun first => ?_
  exact Ensures.pure fun _ h => h

/-- Taking a dividend and a divisor off the stack. -/
theorem stays_popDivision : Stays code address (popDivision (ω := ω) pc opcode) := by
  refine stays_popPair.bind fun pair => ?_
  dsimp only
  split
  · exact Ensures.throw fun _ _ => trivial
  · exact Ensures.pure fun _ h => h

/-- Putting a word on the stack. -/
theorem stays_push (word : Int32) : Stays code address (push (ω := ω) word) :=
  Ensures.modify fun _ h => ⟨h.code, h.pc⟩

/-- Filling the result registers. -/
theorem stays_setResults (low high : Int32) : Stays code address (setResults (ω := ω) low high) :=
  Ensures.modify fun _ h => ⟨h.code, h.pc⟩

/-- A jump to an address goes there. -/
theorem ensures_jump {target : Int32} {place : Nat} (h : target.toInt = (place : Int)) :
    Ensures (At (ω := ω) code address) (jump target) (fun _ => At code place)
      fun fault _ => fault.InOrder code.size := by
  refine Ensures.get fun machine hmachine => ?_
  have hsign : ¬ target < 0 := by
    rw [Int32.lt_iff_toInt_lt, h]
    simp
  rw [if_neg hsign]
  rintro seen rfl
  exact ⟨hmachine.code, by simp [h]⟩

/-- A conditional jump goes to its address or on behind its operands. -/
theorem ensures_branch {word target : Int32} {place : Nat} {onEqual : Bool}
    (hword : code[address]? = some word) (htarget : code[address + 1]? = some target)
    (h : target.toInt = (place : Int)) :
    Ensures (At (ω := ω) code address) (branch pc opcode onEqual)
      (fun _ machine => At code place machine ∨ At code (address + 2) machine)
      fun fault _ => fault.InOrder code.size := by
  refine ensures_operand_bind hword (ensures_operand_bind htarget ?_)
  refine Ensures.get fun machine hmachine => ?_
  split
  · exact Ensures.throw fun _ _ => trivial
  · split
    · have hjump := (ensures_jump h).strengthen fun seen (hseen : seen = machine) => hseen ▸ hmachine
      exact hjump.weaken fun _ _ hjumped => Or.inl hjumped
    · exact Ensures.pure fun seen hseen => Or.inr (hseen ▸ hmachine)

/-- Behind the operands of an instruction stands the next one, or the program
ends. -/
theorem between_of_at {before rest : List Instruction} {operands : List Int32}
    {machine : Machine ω}
    (hmachine : At code ((wordsOf before).length + 1 + operands.length) machine) :
    Between code (before ++ (opcode, operands) :: rest) machine := by
  refine ⟨before ++ [(opcode, operands)], ⟨rest, by simp⟩, hmachine.code, ?_⟩
  rw [hmachine.pc, wordsOf_append, List.length_append]
  simp [wordsOf]
  omega

/-- A place between two instructions cuts the program into whole instructions. -/
theorem Between.wellFormed_take (h : Sectioned code body) {machine : Machine ω}
    (hmachine : Between code body machine) :
    machine.pc ≤ code.size ∧ WellFormed (code.toList.take machine.pc) := by
  obtain ⟨before, ⟨rest, rfl⟩, hat⟩ := hmachine
  have hwords : code.toList = wordsOf before ++ wordsOf rest := by
    rw [h.words, wordsOf_append]
  have hsize : code.size = (wordsOf before).length + (wordsOf rest).length := by
    rw [← Array.length_toList, hwords, List.length_append]
  rw [hat.pc, hwords, List.take_left]
  refine ⟨by omega, wellFormed_wordsOf fun instruction hinstruction => ?_⟩
  exact h.counts instruction (List.mem_append_left rest hinstruction)

section Instructions

variable {before rest : List Instruction} {operands : List Int32} {onEqual : Bool}

/-- An instruction with one operand that is no address goes on behind the operand. -/
theorem between_operand {α : Type} (h : Sectioned code (before ++ (opcode, operands) :: rest))
    (hcount : operands.length = 1) {next : Int32 → Exec ω α}
    (hnext : ∀ answer, Stays code ((wordsOf before).length + 1 + 1) (next answer)) :
    Ensures (At (ω := ω) code ((wordsOf before).length + 1)) (operand pc opcode >>= next)
      (fun _ => Between code (before ++ (opcode, operands) :: rest))
      fun fault _ => fault.InOrder code.size := by
  obtain ⟨word, rfl⟩ := List.length_eq_one_iff.mp hcount
  obtain ⟨-, hoperand⟩ := h.getElem?_eq
  refine ensures_operand_bind (hoperand 0 (by simp)) ?_
  exact (hnext word).weaken fun _ machine hmachine => between_of_at hmachine

/-- A jump of a program leads to a place between two instructions. -/
theorem between_jump (h : Sectioned code (before ++ (opcode, operands) :: rest))
    (hjumps : opcode.jumps = true) (hcount : operands.length = 1) :
    Ensures (At (ω := ω) code ((wordsOf before).length + 1))
      (do jump (← operand pc opcode); return Progress.running)
      (fun _ => Between code (before ++ (opcode, operands) :: rest))
      fun fault _ => fault.InOrder code.size := by
  obtain ⟨target, hlast, place, hplace, haddress⟩ := h.targets (opcode, operands) (by simp) hjumps
  obtain ⟨word, rfl⟩ := List.length_eq_one_iff.mp hcount
  obtain ⟨-, hoperand⟩ := h.getElem?_eq
  cases hlast
  refine ensures_operand_bind (hoperand 0 (by simp)) ?_
  refine (ensures_jump haddress).bind fun _ => ?_
  exact Ensures.pure fun machine hmachine => ⟨place, hplace, hmachine⟩

/-- A conditional jump of a program leads to a place between two instructions. -/
theorem between_branch (h : Sectioned code (before ++ (opcode, operands) :: rest))
    (hjumps : opcode.jumps = true) (hcount : operands.length = 2) :
    Ensures (At (ω := ω) code ((wordsOf before).length + 1)) (branch pc opcode onEqual)
      (fun _ => Between code (before ++ (opcode, operands) :: rest))
      fun fault _ => fault.InOrder code.size := by
  obtain ⟨target, hlast, place, hplace, haddress⟩ := h.targets (opcode, operands) (by simp) hjumps
  obtain ⟨word, address, rfl⟩ := List.length_eq_two.mp hcount
  obtain ⟨-, hoperand⟩ := h.getElem?_eq
  cases hlast
  refine (ensures_branch (hoperand 0 (by simp)) (hoperand 1 (by simp)) haddress).weaken
    fun _ machine hmachine => ?_
  obtain hjumped | hpassed := hmachine
  · exact ⟨place, hplace, hjumped⟩
  · exact between_of_at hpassed

end Instructions

variable [Output ω]

/-- Writing to the output. -/
theorem stays_write (text : String) : Stays code address (write (ω := ω) pc text) := by
  refine Ensures.get fun machine hmachine => ?_
  obtain ⟨outcome, sink⟩ := Output.write machine.sink text
  rintro seen rfl
  cases outcome with
  | error refusal => exact trivial
  | ok answer => exact ⟨hmachine.code, hmachine.pc⟩

/-- Writing the line of an instruction. -/
theorem stays_trace (name : String) (operandCount : Nat) :
    Stays code address (trace (ω := ω) pc name operandCount) := by
  refine Ensures.get fun machine hmachine => ?_
  split
  · exact (stays_write _).strengthen fun seen hseen => hseen ▸ hmachine
  · exact Ensures.pure fun seen hseen => hseen ▸ hmachine

/-- An instruction without operands leaves the machine behind its opcode. -/
theorem stays_execute (h : opcode.operandCount = 0) :
    Stays code address (execute (ω := ω) pc opcode) := by
  have hrunning : Stays code address (Pure.pure Progress.running : Exec ω Progress) :=
    Ensures.pure fun _ h => h
  cases opcode with
  | halt =>
    have hhalt : Stays code address
        (modify fun machine : Machine ω => { machine with halted := true }) :=
      Ensures.modify fun _ h => ⟨h.code, h.pc⟩
    exact hhalt.bind fun _ => Ensures.pure fun _ h => h
  | nop => exact hrunning
  | pop => exact stays_pop.bind fun _ => hrunning
  | add => exact stays_popPair.bind fun _ => (stays_push _).bind fun _ => hrunning
  | mul => exact stays_popPair.bind fun _ => (stays_setResults _ _).bind fun _ => hrunning
  | div => exact stays_popDivision.bind fun _ => (stays_setResults _ _).bind fun _ => hrunning
  | mod => exact stays_popDivision.bind fun _ => (stays_push _).bind fun _ => hrunning
  | print => exact stays_pop.bind fun _ => (stays_write _).bind fun _ => hrunning
  | sll => exact stays_popPair.bind fun _ => (stays_push _).bind fun _ => hrunning
  | srl => exact stays_popPair.bind fun _ => (stays_push _).bind fun _ => hrunning
  | push | jeq | jne | j | slt => contradiction

/-- An instruction that is carried out leads to a place between two instructions. -/
theorem ensures_execute {before rest : List Instruction} {operands : List Int32}
    (h : Sectioned code (before ++ (opcode, operands) :: rest)) :
    Ensures (At (ω := ω) code ((wordsOf before).length + 1)) (execute pc opcode)
      (fun _ => Between code (before ++ (opcode, operands) :: rest))
      fun fault _ => fault.InOrder code.size := by
  have hcount : operands.length = opcode.operandCount := h.counts (opcode, operands) (by simp)
  have hpush (address : Nat) (word : Int32) : Stays (ω := ω) code address
      (do push word; return Progress.running) :=
    (stays_push word).bind fun _ => Ensures.pure fun _ hmachine => hmachine
  by_cases hnone : opcode.operandCount = 0
  · refine (stays_execute hnone).weaken fun _ machine hmachine => between_of_at ?_
    rwa [hcount, hnone]
  cases opcode with
  | push => exact between_operand h hcount fun answer => hpush _ answer
  | slt =>
    refine stays_pop.bind fun compared => ?_
    exact between_operand h hcount fun bound => hpush _ _
  | j => exact between_jump h rfl hcount
  | jeq => exact (between_branch h rfl hcount).bind fun _ => Ensures.pure fun _ h => h
  | jne => exact (between_branch h rfl hcount).bind fun _ => Ensures.pure fun _ h => h
  | _ => contradiction

/-- Steps that come out as they should: between two instructions, or with a fault
that is in order. -/
structure Proceeds (code : Array Int32) (body : List Instruction)
    (outcome : Except Fault Progress × Machine ω) : Prop where
  /-- Without a fault the machine stands between two instructions. -/
  between : ∀ progress, outcome.1 = .ok progress → Between code body outcome.2
  /-- A fault is in order. -/
  inOrder : ∀ fault, outcome.1 = .error fault → fault.InOrder code.size

/-- A step from a place between two instructions leads to another one, or faults
in order. -/
theorem proceeds_step (h : Sectioned code body) {machine : Machine ω}
    (hmachine : Between code body machine) : Proceeds code body machine.step := by
  obtain ⟨before, ⟨rest, rfl⟩, hat⟩ := hmachine
  have hstepping : Ensures (At (ω := ω) code (wordsOf before).length) stepping
      (fun _ => Between code (before ++ rest)) fun fault _ => fault.InOrder code.size := by
    refine Ensures.get fun machine hmachine => ?_
    split
    · exact Ensures.pure fun seen hseen => ⟨before, List.prefix_append _ _, hseen ▸ hmachine⟩
    · rw [hmachine.code, hmachine.pc]
      cases rest with
      | nil =>
        have hsize : code.size = (wordsOf before).length := by
          rw [← Array.length_toList, h.words, List.append_nil]
        have hend : code[(wordsOf before).length]? = none :=
          Array.getElem?_eq_none (Nat.le_of_eq hsize)
        rw [hend]
        exact Ensures.throw fun _ _ => ⟨by rw [hsize], rfl⟩
      | cons instruction rest =>
        obtain ⟨opcode, operands⟩ := instruction
        rw [h.getElem?_eq.1]
        dsimp only
        rw [Opcode.ofWord?_word]
        have htrace : Ensures (fun seen : Machine ω => seen = machine)
            (trace (wordsOf before).length opcode.name opcode.operandCount)
            (fun _ => At code (wordsOf before).length) fun fault _ => fault.InOrder code.size :=
          (stays_trace opcode.name opcode.operandCount).strengthen fun seen hseen =>
            hseen ▸ hmachine
        refine htrace.bind fun _ => ?_
        refine Ensures.bind (Ensures.modify fun traced htraced => ?_) fun _ => ensures_execute h
        exact ⟨htraced.code, by rw [htraced.pc]⟩
  obtain ⟨hok, herror⟩ := hstepping.outcome hat
  exact ⟨hok, herror⟩

/-- Steps from a place between two instructions lead to another one, or the first
fault is in order. -/
theorem proceeds_stepUpTo (h : Sectioned code body) (count : Nat) {machine : Machine ω}
    (hmachine : Between code body machine) : Proceeds code body (machine.stepUpTo count) := by
  induction count generalizing machine with
  | zero => exact ⟨fun _ _ => hmachine, fun _ hfault => by cases hfault⟩
  | succ count ih =>
    have hstep := proceeds_step h hmachine
    unfold stepUpTo
    split
    · rename_i next hrun
      rw [hrun] at hstep
      have hnext : Between code body next := hstep.between _ rfl
      split
      · exact ⟨fun _ _ => hnext, fun _ hfault => by cases hfault⟩
      · exact ih hnext
    · exact hstep

end Machine

/-- A program that was built with labels as addresses of all jumps is decoded as it
was built. Whatever the machine traces and wherever it writes, after any number of
steps it stands behind whole instructions of the program; the first fault, if there
is one, is neither that of a word that is no opcode nor that of a missing operand,
and it is reported outside the program only right behind its end. -/
theorem stepUpTo_built {calls : List Builder.Call} (hcalls : ∀ call ∈ calls, call.JumpsToLabel)
    {code : Array Int32} (hcode : (Builder.callAll {} calls).finish = .ok code) {ω : Type}
    [Output ω] (tracing : Bool) (sink : ω) (count : Nat) :
    (∀ fault, ((Machine.start code tracing sink).stepUpTo count).1 = .error fault →
      fault.InOrder code.size) ∧
      ∀ progress, ((Machine.start code tracing sink).stepUpTo count).1 = .ok progress →
        ((Machine.start code tracing sink).stepUpTo count).2.pc ≤ code.size ∧
          WellFormed (code.toList.take ((Machine.start code tracing sink).stepUpTo count).2.pc) := by
  obtain ⟨body, hbody⟩ := Builder.exists_sectioned hcalls hcode
  have hstart : Machine.Between code body (Machine.start code tracing sink) :=
    ⟨[], List.nil_prefix, rfl, rfl⟩
  have hproceeds := Machine.proceeds_stepUpTo hbody count hstart
  exact ⟨hproceeds.inOrder, fun progress hprogress =>
    Machine.Between.wellFormed_take hbody (hproceeds.between progress hprogress)⟩

/-- The calls that build a loop which is left to the end of the program: the label
behind the loop is used before it is made. -/
def loopCalls : List Builder.Call :=
  [.newLabel, .bind ⟨0⟩, .push 7, .jumpIfEqual 7 ⟨1⟩, .jump ⟨0⟩, .newLabel, .bind ⟨1⟩]

/-- The words of the loop. -/
def loopWords : Array Int32 := #[2, 7, 9, 7, 7, 11, 0]

/-- Three steps of the loop end between two of its instructions. -/
theorem stepUpTo_built_loop :
    (∀ call ∈ loopCalls, call.JumpsToLabel) ∧
      (Builder.callAll {} loopCalls).finish = .ok loopWords ∧
      (∀ fault, ((Machine.start loopWords true ({} : Sink)).stepUpTo 3).1 = .error fault →
        fault.InOrder loopWords.size) ∧
      ∀ progress, ((Machine.start loopWords true ({} : Sink)).stepUpTo 3).1 = .ok progress →
        ((Machine.start loopWords true ({} : Sink)).stepUpTo 3).2.pc ≤ loopWords.size ∧
          WellFormed (loopWords.toList.take
            ((Machine.start loopWords true ({} : Sink)).stepUpTo 3).2.pc) := by
  have hcalls : ∀ call ∈ loopCalls, call.JumpsToLabel := by decide
  have hcode : (Builder.callAll {} loopCalls).finish = .ok loopWords := rfl
  have hrun := stepUpTo_built hcalls hcode true ({} : Sink) 3
  exact ⟨hcalls, hcode, hrun⟩

end LanguageKit
