import LanguageKit.Proofs.InstructionTable
import LanguageKit.Proofs.LiveStack
import LanguageKit.Proofs.Tracing

/-!
# The machine follows the instruction table

A machine with words and slots and a machine with integers and a list start alike, and
every step keeps them alike: what one shows is what the other has. This holds for every
program and after any number of calls of a step, faults included.
-/

namespace LanguageKit.Machine

open Text

variable {ω : Type}

/-- What can be seen of a machine is what an integer machine has. -/
structure Shows (machine : Machine ω) (ideal : IntegerMachine) : Prop where
  /-- Both go on at the same address. -/
  pc : machine.pc = ideal.pc
  /-- The live words, bottom first, are the integers of the other stack. -/
  stack : machine.stack.toList.map Int32.toInt = ideal.stack.reverse
  /-- The registers hold the same integers. -/
  registers : ∀ index : Fin 32, machine.registers[index].toInt = ideal.registers index
  /-- Both have halted or neither has. -/
  halted : machine.halted = ideal.halted
  /-- Both have counted the same steps. -/
  steps : machine.steps = ideal.steps

/-- The lines in which integers are printed. -/
def printedLines (printed : List Int) : List String := printed.map fun n => intText n ++ "\n"

/-- The integers of a machine that is shown by one with words are words. -/
theorem Shows.inWord {machine : Machine ω} {ideal : IntegerMachine} (h : machine.Shows ideal) :
    (∀ n ∈ ideal.stack, InWord n) ∧ ∀ index, InWord (ideal.registers index) := by
  constructor
  · intro n hn
    rw [← List.mem_reverse, ← h.stack] at hn
    obtain ⟨word, -, rfl⟩ := List.mem_map.mp hn
    exact IntegerMachine.inWord_toInt word
  · intro index
    rw [← h.registers index]
    exact IntegerMachine.inWord_toInt _

variable [Output ω] {code : Array Int32} {sink : ω} {machine : Machine ω} {ideal : IntegerMachine}

/-- A machine that runs a program as an integer machine does, from a time at which the
output went to a given place. -/
structure Tracks (code : Array Int32) (sink : ω) (machine : Machine ω) (ideal : IntegerMachine) :
    Prop extends machine.Shows ideal where
  /-- The machine runs the program. -/
  code : machine.code = code
  /-- The stack is sound. -/
  sound : machine.stack.Sound
  /-- Only the result registers have been filled. -/
  spare : ∀ index, index ≠ lowIndex → index ≠ highIndex → ideal.registers index = 0
  /-- The output never refuses a text. -/
  accepting : Output.Accepting machine.sink
  /-- Unless the machine traces, it has written what was printed. -/
  output : machine.tracing = false →
    machine.sink = Output.writeAll sink (printedLines ideal.printed)

/-- Two steps bring the same and leave machines that go on alike. -/
def Agree (code : Array Int32) (sink : ω) (outcome : Except Fault Progress × Machine ω)
    (ideal : IntegerMachine.Outcome) : Prop :=
  outcome.1 = ideal.1 ∧ Tracks code sink outcome.2 ideal.2

/-- At the start of a program the two machines are alike. -/
theorem tracks_start (code : Array Int32) (tracing : Bool) {sink : ω}
    (h : Output.Accepting sink) :
    Tracks code sink (start code tracing sink) IntegerMachine.start := by
  have hregisters (index : Fin 32) :
      (start code tracing sink).registers[index].toInt = IntegerMachine.start.registers index := by
    have hzero : (start code tracing sink).registers[index] = 0 := Vector.getElem_replicate _
    rw [hzero]
    rfl
  exact
    { pc := rfl
      stack := rfl
      registers := hregisters
      halted := rfl
      steps := rfl
      code := rfl
      sound := Stack.sound_empty
      spare := fun _ _ _ => rfl
      accepting := h
      output := fun _ => rfl }

namespace Tracks

/-- Both machines go to an address. -/
theorem goTo (h : Tracks code sink machine ideal) {address target : Nat}
    (heq : address = target) :
    Tracks code sink { machine with pc := address } { ideal with pc := target } :=
  { h with pc := heq }

/-- The stack of the machine may be replaced by one that shows another list. -/
theorem restack (h : Tracks code sink machine ideal) {stack : Stack} (hsound : stack.Sound)
    {integers : List Int} (hstack : stack.toList.map Int32.toInt = integers.reverse) :
    Tracks code sink { machine with stack } { ideal with stack := integers } :=
  { h with stack := hstack, sound := hsound }

/-- Both machines can go on. -/
theorem goOn (h : Tracks code sink machine ideal) :
    Agree code sink ((Pure.pure Progress.running : Exec ω Progress).run.run machine)
      ideal.goOn :=
  ⟨rfl, h⟩

/-- A word is pushed as its integer. -/
theorem push (h : Tracks code sink machine ideal) (word : Int32) :
    Agree code sink
      ((do Machine.push word; return Progress.running : Exec ω Progress).run.run machine)
      (ideal.push word.toInt).goOn := by
  obtain ⟨hsound, hlist⟩ := h.sound.push word
  have hstack : (machine.stack.push word).toList.map Int32.toInt =
      (word.toInt :: ideal.stack).reverse := by
    rw [hlist, List.map_append, h.stack, List.reverse_cons]
    rfl
  exact ⟨rfl, h.restack hsound hstack⟩

/-- The result registers are filled with the integers of words. -/
theorem setResults (h : Tracks code sink machine ideal) (low high : Int32) :
    Agree code sink
      ((do Machine.setResults low high; return Progress.running : Exec ω Progress).run.run machine)
      (ideal.setResults low.toInt high.toInt).goOn := by
  have hregisters (index : Fin 32) :
      ((machine.registers.set lowIndex low).set highIndex high)[index].toInt =
        (ideal.setResults low.toInt high.toInt).registers index := by
    simp only [IntegerMachine.setResults, Function.update_apply, Fin.getElem_fin,
      Vector.getElem_set, ← Fin.ext_iff, eq_comm (a := index)]
    split
    · rfl
    · split
      · rfl
      · exact h.registers index
  have hspare : ∀ index, index ≠ lowIndex → index ≠ highIndex →
      (ideal.setResults low.toInt high.toInt).registers index = 0 := by
    intro index hlow hhigh
    have hkept : (ideal.setResults low.toInt high.toInt).registers index = ideal.registers index :=
      (Function.update_of_ne hhigh _ _).trans (Function.update_of_ne hlow _ _)
    rw [hkept, h.spare index hlow hhigh]
  exact ⟨rfl, { h with registers := hregisters, spare := hspare }⟩

/-- The top of the list is the last of the live words. -/
theorem exists_snoc (h : Tracks code sink machine ideal) {top : Int} {rest : List Int}
    (hstack : ideal.stack = top :: rest) :
    ∃ words word, machine.stack.toList = words ++ [word] ∧ word.toInt = top ∧
      words.map Int32.toInt = rest.reverse := by
  have hmap := h.stack
  rw [hstack, List.reverse_cons] at hmap
  obtain ⟨words, last, hlist, hwords, hlast⟩ := List.map_eq_append_iff.mp hmap
  obtain ⟨word, rfl, hword⟩ := List.map_eq_singleton_iff.mp hlast
  exact ⟨words, word, hlist, hword, hwords⟩

/-- An empty list is that of a stack without live words. -/
theorem toList_eq_nil (h : Tracks code sink machine ideal) (hstack : ideal.stack = []) :
    machine.stack.toList = [] := by
  have hmap := h.stack
  rw [hstack, List.reverse_nil] at hmap
  exact List.map_eq_nil_iff.mp hmap

section Parts

variable {rest : Int32 → Exec ω Progress} {pc : Nat} {opcode : Opcode}

/-- Both machines read the next operand. -/
theorem operand (h : Tracks code sink machine ideal)
    {next : Int → IntegerMachine → IntegerMachine.Outcome}
    (hnext : ∀ (word : Int32) {machine : Machine ω} {ideal : IntegerMachine},
      Tracks code sink machine ideal →
        Agree code sink ((rest word).run.run machine) (next word.toInt ideal)) :
    Agree code sink ((Machine.operand pc opcode >>= rest).run.run machine)
      (ideal.withOperand code pc opcode next) := by
  have hfetch : machine.code[machine.pc]? = code[ideal.pc]? := by rw [h.code, h.pc]
  have hbehind : Tracks code sink { machine with pc := machine.pc + 1 }
      { ideal with pc := ideal.pc + 1 } :=
    h.goTo (congrArg (· + 1) h.pc)
  rw [run_bind, run_operand, IntegerMachine.withOperand, hfetch]
  cases code[ideal.pc]? with
  | none => exact ⟨rfl, h⟩
  | some word => exact hnext word hbehind

/-- Both machines take the top of the stack. -/
theorem pop (h : Tracks code sink machine ideal)
    {next : Int → IntegerMachine → IntegerMachine.Outcome}
    (hnext : ∀ (word : Int32) {machine : Machine ω} {ideal : IntegerMachine},
      Tracks code sink machine ideal →
        Agree code sink ((rest word).run.run machine) (next word.toInt ideal)) :
    Agree code sink ((Machine.pop pc opcode >>= rest).run.run machine)
      (ideal.withTop pc opcode next) := by
  rw [run_bind, run_pop, IntegerMachine.withTop]
  cases hstack : ideal.stack with
  | nil =>
    rw [h.sound.pop_of_nil (h.toList_eq_nil hstack)]
    exact ⟨rfl, h⟩
  | cons top integers =>
    obtain ⟨words, word, hlist, rfl, hwords⟩ := h.exists_snoc hstack
    obtain ⟨popped, hpop, hsound, hpopped⟩ := h.sound.pop_of_snoc hlist
    rw [hpop]
    exact hnext word (h.restack hsound (by rw [hpopped, hwords]))

/-- Both machines take the two topmost integers, first the one that was pushed last. -/
theorem popPair (h : Tracks code sink machine ideal)
    {rest : Int32 × Int32 → Exec ω Progress}
    {next : Int → Int → IntegerMachine → IntegerMachine.Outcome}
    (hnext : ∀ (first second : Int32) {machine : Machine ω} {ideal : IntegerMachine},
      Tracks code sink machine ideal →
        Agree code sink ((rest (first, second)).run.run machine)
          (next first.toInt second.toInt ideal)) :
    Agree code sink ((Machine.popPair pc opcode >>= rest).run.run machine)
      (ideal.withPair pc opcode next) := by
  have htwice : ideal.withPair pc opcode next =
      ideal.withTop pc opcode fun second ideal =>
        ideal.withTop pc opcode fun first ideal => next first second ideal := by
    unfold IntegerMachine.withPair IntegerMachine.withTop
    obtain ⟨address, stack, registers, halted, steps, printed⟩ := ideal
    cases stack with
    | nil => rfl
    | cons second stack => cases stack <;> rfl
  rw [htwice, Machine.popPair, bind_assoc]
  refine h.pop fun second _ _ h => ?_
  rw [bind_assoc]
  refine h.pop fun first _ _ h => ?_
  rw [pure_bind]
  exact hnext first second h

/-- Both machines take a dividend and a divisor. -/
theorem popDivision (h : Tracks code sink machine ideal)
    {rest : Int32 × Int32 → Exec ω Progress}
    {next : Int → Int → IntegerMachine → IntegerMachine.Outcome}
    (hnext : ∀ (dividend divisor : Int32) {machine : Machine ω} {ideal : IntegerMachine},
      Tracks code sink machine ideal →
        Agree code sink ((rest (dividend, divisor)).run.run machine)
          (next dividend.toInt divisor.toInt ideal)) :
    Agree code sink ((Machine.popDivision pc opcode >>= rest).run.run machine)
      (ideal.withDivision pc opcode next) := by
  rw [Machine.popDivision, bind_assoc, IntegerMachine.withDivision]
  refine h.popPair fun dividend divisor _ _ h => ?_
  have hzero : divisor = 0 ↔ divisor.toInt = 0 := Int32.toInt_inj.symm
  dsimp only
  by_cases hdivisor : divisor = 0
  · rw [if_pos hdivisor, if_pos (hzero.mp hdivisor)]
    exact ⟨rfl, h⟩
  · rw [if_neg hdivisor, if_neg (mt hzero.mpr hdivisor)]
    exact hnext dividend divisor h

/-- Both machines jump. -/
theorem jump (h : Tracks code sink machine ideal) (target : Int32) :
    Agree code sink
      ((do Machine.jump target; return Progress.running : Exec ω Progress).run.run machine)
      (ideal.jump code target.toInt) := by
  have hsign : target < 0 ↔ target.toInt < 0 := Int32.lt_iff_toInt_lt
  rw [run_bind, run_jump, IntegerMachine.jump]
  by_cases htarget : target < 0
  · rw [if_pos htarget, if_pos (hsign.mp htarget), h.code]
    exact ⟨rfl, h⟩
  · rw [if_neg htarget, if_neg (mt hsign.mpr htarget)]
    exact (h.goTo rfl).goOn

/-- Both machines jump on a condition. -/
theorem branch (h : Tracks code sink machine ideal) (onEqual : Bool) :
    Agree code sink
      ((do Machine.branch pc opcode onEqual; return Progress.running :
        Exec ω Progress).run.run machine)
      (ideal.branch code pc opcode onEqual) := by
  rw [Machine.branch, bind_assoc, IntegerMachine.branch]
  refine h.operand fun compared _ _ h => ?_
  rw [bind_assoc]
  refine h.operand fun target machine ideal h => ?_
  rw [bind_assoc, run_get_bind, h.sound.top?_eq]
  cases hstack : ideal.stack with
  | nil =>
    rw [h.toList_eq_nil hstack]
    exact ⟨rfl, h⟩
  | cons top integers =>
    obtain ⟨words, word, hlist, rfl, -⟩ := h.exists_snoc hstack
    have hequal : (word == compared) = decide (word.toInt = compared.toInt) := by
      rw [Bool.eq_iff_iff, beq_iff_eq, decide_eq_true_iff, Int32.toInt_inj]
    rw [hlist, List.getLast?_concat]
    dsimp only
    rw [hequal]
    by_cases hjump : decide (word.toInt = compared.toInt) = onEqual
    · rw [if_pos hjump, if_pos (beq_iff_eq.mpr hjump)]
      exact h.jump target
    · rw [if_neg hjump, if_neg (mt beq_iff_eq.mp hjump)]
      exact h.goOn

/-- Both machines print the top of the stack. -/
theorem print (h : Tracks code sink machine ideal) :
    Agree code sink ((Machine.execute pc .print).run.run machine)
      (ideal.execute code pc .print) := by
  refine h.pop fun word machine ideal h => ?_
  have hwritten : Tracks code sink
      { machine with sink := Output.writeAll machine.sink [wordText word ++ "\n"] }
      { ideal with printed := ideal.printed ++ [word.toInt] } := by
    refine { h with accepting := h.accepting.writeAll _, output := fun htracing => ?_ }
    have hlines : printedLines (ideal.printed ++ [word.toInt]) =
        printedLines ideal.printed ++ [wordText word ++ "\n"] := List.map_append
    rw [hlines, Output.writeAll_append, ← h.output htracing]
  rw [run_bind, run_write _ h.accepting]
  exact ⟨rfl, hwritten⟩

end Parts

/-- Both machines carry out an instruction. -/
theorem execute (h : Tracks code sink machine ideal) (pc : Nat) (opcode : Opcode) :
    Agree code sink ((Machine.execute pc opcode).run.run machine)
      (ideal.execute code pc opcode) := by
  cases opcode with
  | halt => exact ⟨rfl, { h with halted := rfl }⟩
  | nop => exact h.goOn
  | push => exact h.operand fun word _ _ h => h.push word
  | pop => exact h.pop fun _ _ _ h => h.goOn
  | add =>
    refine h.popPair fun a b _ _ h => ?_
    rw [← IntegerMachine.toInt_add]
    exact h.push (a + b)
  | mul =>
    refine h.popPair fun a b _ _ h => ?_
    rw [← IntegerMachine.toInt_productLow, ← IntegerMachine.toInt_productHigh]
    exact h.setResults (productLow a b) (productHigh a b)
  | div =>
    refine h.popDivision fun a b _ _ h => ?_
    rw [← IntegerMachine.toInt_div, ← IntegerMachine.toInt_mod]
    exact h.setResults (a / b) (a % b)
  | mod =>
    refine h.popDivision fun a b _ _ h => ?_
    rw [← IntegerMachine.toInt_mod]
    exact h.push (a % b)
  | print => exact h.print
  | jeq => exact h.branch true
  | jne => exact h.branch false
  | j => exact h.operand fun target _ _ h => h.jump target
  | slt =>
    refine h.pop fun a _ _ h => h.operand fun bound _ _ h => ?_
    have hless : (if a < bound then (1 : Int32) else 0).toInt =
        if a.toInt < bound.toInt then 1 else 0 := by
      by_cases hlt : a < bound
      · rw [if_pos hlt, if_pos (Int32.lt_iff_toInt_lt.mp hlt)]
        rfl
      · rw [if_neg hlt, if_neg (mt Int32.lt_iff_toInt_lt.mpr hlt)]
        rfl
    rw [← hless]
    exact h.push _
  | sll =>
    refine h.popPair fun a b _ _ h => ?_
    rw [← IntegerMachine.toInt_shiftLeft]
    exact h.push (shiftLeft a b)
  | srl =>
    refine h.popPair fun a b _ _ h => ?_
    rw [← IntegerMachine.toInt_shiftRight]
    exact h.push (shiftRight a b)

/-- A line that is written when the machine traces is none of those that are printed. -/
theorem announce (h : Tracks code sink machine ideal) :
    Tracks code sink machine.announce ideal := by
  refine { h with accepting := h.accepting.writeAll _, output := fun htracing => ?_ }
  have hquiet : machine.announce.sink = machine.sink := by
    unfold Machine.announce
    have hmachine : machine.tracing = false := htracing
    rw [hmachine]
    rfl
  rw [hquiet]
  exact h.output htracing

/-- A step keeps the two machines alike. -/
theorem step (h : Tracks code sink machine ideal) :
    Agree code sink machine.step (ideal.step code) := by
  have hfetch : machine.code[machine.pc]? = code[ideal.pc]? := by rw [h.code, h.pc]
  unfold IntegerMachine.step
  by_cases hhalted : machine.halted = true
  · rw [step_of_halted machine hhalted, if_pos (h.halted ▸ hhalted)]
    exact ⟨rfl, h⟩
  have hrunning : machine.halted = false := eq_false_of_ne_true hhalted
  rw [if_neg (h.halted ▸ hhalted)]
  cases hword : code[ideal.pc]? with
  | none =>
    rw [step_of_outside machine hrunning (hfetch.trans hword), h.pc, h.code]
    exact ⟨rfl, h⟩
  | some word =>
    dsimp only
    cases hopcode : Opcode.ofWord? word with
    | none =>
      rw [step_of_unknown machine h.accepting hrunning (hfetch.trans hword) hopcode, h.pc]
      exact ⟨rfl, h.announce⟩
    | some opcode =>
      rw [step_of_opcode machine h.accepting hrunning (hfetch.trans hword) hopcode]
      have hcounted : Tracks code sink
          { machine.announce with pc := machine.pc + 1, steps := machine.steps + 1 }
          { ideal with pc := ideal.pc + 1, steps := ideal.steps + 1 } :=
        { h.announce with
          pc := congrArg (· + 1) h.pc
          steps := congrArg (· + 1) h.steps }
      rw [h.pc] at hcounted ⊢
      exact hcounted.execute ideal.pc opcode

/-- Calls of a step keep the two machines alike. -/
theorem afterCalls (code : Array Int32) (tracing : Bool) {sink : ω}
    (h : Output.Accepting sink) (count : Nat) :
    Tracks code sink ((start code tracing sink).afterCalls count)
      (IntegerMachine.afterCalls code count) := by
  induction count with
  | zero => exact tracks_start code tracing h
  | succ count ih => exact ih.step.2

end Tracks

/-- The machine follows the instruction table. On every program and after any number of
calls of a step, those behind a fault included, it shows what the integer machine has:
address, live stack, registers, halt and count of steps; the next call brings both the
same progress or the same fault; and a machine that does not trace has written what was
printed. All integers stay in the range of words, and only the result registers are ever
filled. The arithmetic of the integer machine is what it should be: a product is put
together from its two words in one way only, and quotient and remainder are determined by
division towards zero, except for the one quotient that no word holds. -/
theorem follows_instruction_table (code : Array Int32) (tracing : Bool) {sink : ω}
    (h : Output.Accepting sink) (count : Nat) :
    let machine := (start code tracing sink).afterCalls count
    let ideal := IntegerMachine.afterCalls code count
    machine.Shows ideal ∧
      machine.step.1 = (ideal.step code).1 ∧
      (tracing = false → machine.sink = Output.writeAll sink (printedLines ideal.printed)) ∧
      ((∀ n ∈ ideal.stack, InWord n) ∧ ∀ index, InWord (ideal.registers index)) ∧
      (∀ index : Fin 32, index ≠ lowIndex → index ≠ highIndex → machine.registers[index] = 0) ∧
      (∀ a b, InWord a → InWord b → ∀ low high,
        IntegerMachine.IsProduct a b low high ↔
          low = IntegerMachine.productLow a b ∧ high = IntegerMachine.productHigh a b) ∧
      (∀ a b, b ≠ 0 → ¬ (a = -2 ^ 31 ∧ b = -1) → ∀ quotient remainder,
        IntegerMachine.IsDivision a b quotient remainder ↔
          quotient = IntegerMachine.quotient a b ∧ remainder = IntegerMachine.remainder a b) ∧
      IntegerMachine.quotient (-2 ^ 31) (-1) = -2 ^ 31 ∧
      IntegerMachine.remainder (-2 ^ 31) (-1) = 0 := by
  intro machine ideal
  have htracks : Tracks code sink machine ideal := Tracks.afterCalls code tracing h count
  have htracing : machine.tracing = tracing :=
    congrArg Machine.tracing
      (afterCalls_redirect (start code tracing sink) h h tracing count)
  have hspare : ∀ index : Fin 32, index ≠ lowIndex → index ≠ highIndex →
      machine.registers[index] = 0 := by
    intro index hlow hhigh
    rw [← Int32.toInt_inj, htracks.registers index, htracks.spare index hlow hhigh]
    rfl
  refine ⟨htracks.toShows, htracks.step.1, fun hplain => htracks.output (htracing.trans hplain),
    htracks.toShows.inWord, hspare, fun a b ha hb => IntegerMachine.isProduct_iff ha hb, ?_,
    rfl, by decide⟩
  intro a b hb hheld
  rw [IntegerMachine.quotient, if_neg hheld]
  exact IntegerMachine.isDivision_iff hb

/-- The words of a program that divides the least word by minus one, prints a word and
then lacks operands for a sum. -/
def extremeWords : Array Int32 := #[2, -2147483648, 2, -1, 6, 2, 7, 8, 4]

/-- After five calls the extreme program has its quotient and has printed its word, and the
next call faults. -/
theorem follows_instruction_table_extreme :
    Output.Accepting ({} : Sink) ∧
      ((start extremeWords false ({} : Sink)).afterCalls 5).Shows
        (IntegerMachine.afterCalls extremeWords 5) ∧
      (IntegerMachine.afterCalls extremeWords 5).registers lowIndex = -2 ^ 31 ∧
      ((start extremeWords false ({} : Sink)).afterCalls 5).step.1 =
        .error (.stackUnderflow 8 .add) ∧
      ((start extremeWords false ({} : Sink)).afterCalls 5).sink =
        Output.writeAll ({} : Sink) (printedLines [7]) := by
  have hsink : Output.Accepting ({} : Sink) := Sink.accepting rfl
  obtain ⟨hshows, hstep, houtput, -⟩ := follows_instruction_table extremeWords false hsink 5
  exact ⟨hsink, hshows, rfl, hstep, houtput rfl⟩

end LanguageKit.Machine
