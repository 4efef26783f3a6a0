import LanguageKit.Proofs.LineByLine
import LanguageKit.Proofs.LiveStack

/-!
# Runs that go from instruction to instruction

A run is made of calls of a step. As long as every call leaves the machine running, the run
goes on behind the calls; and where one halts, the run ends with the machine it leaves.

What a call does is described by where the machine stands and which words are live, for a
machine that its output cannot disturb: either it does not trace, or the output never refuses
a text. There is one lemma for each instruction, so that a program is followed without a look
into the steps.
-/

namespace LanguageKit.Machine

variable {ω : Type} {machine : Machine ω}

section Calls

variable [Output ω] {count : Nat}

/-- A number of calls of a step all leave the machine running. -/
def Lasts (machine : Machine ω) (count : Nat) : Prop :=
  ∀ earlier < count, (machine.afterCalls earlier).step.1 = .ok .running

/-- One more call leaves the machine running. -/
theorem Lasts.succ (h : machine.Lasts count)
    (hlast : (machine.afterCalls count).step.1 = .ok .running) : machine.Lasts (count + 1) := by
  intro earlier hearlier
  obtain hbefore | rfl := Nat.lt_succ_iff_lt_or_eq.mp hearlier
  · exact h earlier hbefore
  · exact hlast

/-- A run goes on behind calls that leave the machine running. -/
theorem Lasts.run_add (h : machine.Lasts count) (budget : Nat) :
    machine.run (count + budget) = (machine.afterCalls count).run budget := by
  induction count generalizing budget with
  | zero => rw [Nat.zero_add, afterCalls]
  | succ count ih =>
    have hbefore : machine.Lasts count := fun earlier hearlier => h earlier (by omega)
    have hstep : (machine.afterCalls count).step =
        (.ok .running, machine.afterCalls (count + 1)) :=
      Prod.ext (h count (Nat.lt_succ_self count)) rfl
    rw [Nat.add_assoc, ih hbefore, Nat.add_comm 1 budget, run, hstep]

/-- A run whose calls all leave the machine running does not come to its end. -/
theorem Lasts.run_eq (h : machine.Lasts count) :
    machine.run count = (none, machine.afterCalls count) :=
  h.run_add 0

/-- A run that has a call for the step that halts comes to its end with it. -/
theorem Lasts.run_of_halts (h : machine.Lasts count)
    (hlast : (machine.afterCalls count).step.1 = .ok .halted) {budget : Nat}
    (hbudget : count < budget) :
    machine.run budget = (some (.ok ()), (machine.afterCalls (count + 1)).recordHalt) := by
  obtain ⟨rest, rfl⟩ := Nat.exists_eq_add_of_lt hbudget
  have hstep : (machine.afterCalls count).step = (.ok .halted, machine.afterCalls (count + 1)) :=
    Prod.ext hlast rfl
  rw [Nat.add_assoc, h.run_add, run, hstep]

/-- A machine that its output cannot disturb, unless it prints: it does not trace, or the
output never refuses a text. -/
def Undisturbed (machine : Machine ω) : Prop :=
  machine.tracing = false ∨ Output.Accepting machine.sink

/-- A machine that its output cannot disturb carries out the instruction of the opcode it
fetches. -/
theorem Undisturbed.step_opcode (h : machine.Undisturbed) (hrunning : machine.halted = false)
    {word : Int32} (hfetch : machine.code[machine.pc]? = some word) {opcode : Opcode}
    (hword : Opcode.ofWord? word = some opcode) :
    machine.step = (execute machine.pc opcode).run.run machine.announce.behindOpcode := by
  obtain hsilent | haccepting := h
  · have hnone : (if machine.tracing then machine.announced else []) = [] :=
      if_neg (by rw [hsilent]; exact Bool.false_ne_true)
    have hquiet : machine.announce = machine := by
      rw [announce, hnone]
      rfl
    rw [step_silent_opcode machine hsilent hrunning hfetch hword, hquiet]
  · exact step_of_opcode machine haccepting hrunning hfetch hword

/-- The line of the trace does not disturb the machine. -/
theorem Undisturbed.announce (h : machine.Undisturbed) : machine.announce.Undisturbed :=
  h.imp id fun haccepting => haccepting.writeAll _

end Calls

/-- An instruction stands in a program at an address. -/
def InstructionAt (code : Array Int32) (pc : Nat) (opcode : Opcode) (operands : List Int32) :
    Prop :=
  opcode.word :: operands <+: code.toList.drop pc

variable [Output ω]

/-- A machine stands at an address of a program, with these live words, bottom first, after a
number of steps. It goes on, and its output cannot disturb it. -/
structure Poised (code : Array Int32) (pc steps : Nat) (words : List Int32)
    (machine : Machine ω) : Prop where
  /-- The machine runs the program. -/
  code : machine.code = code
  /-- It stands at the address. -/
  pc : machine.pc = pc
  /-- It has counted the steps. -/
  steps : machine.steps = steps
  /-- It has not halted. -/
  running : machine.halted = false
  /-- The stack is sound. -/
  sound : machine.stack.Sound
  /-- The stack has these live words. -/
  stack : machine.stack.toList = words
  /-- The output cannot disturb the machine. -/
  undisturbed : machine.Undisturbed

namespace Poised

variable {code : Array Int32} {pc steps : Nat} {words : List Int32}

/-- A fresh machine stands at the beginning of its program and has no live words. -/
theorem start (code : Array Int32) {tracing : Bool} {sink : ω}
    (h : tracing = false ∨ Output.Accepting sink) :
    Poised code 0 0 [] (Machine.start code tracing sink) where
  code := rfl
  pc := rfl
  steps := rfl
  running := rfl
  sound := Stack.sound_empty
  stack := rfl
  undisturbed := h

/-- Behind the opcode, the machine stands in front of the operands and carries out the
instruction. -/
theorem step_eq (h : Poised code pc steps words machine) {opcode : Opcode}
    {operands : List Int32} (hcode : InstructionAt code pc opcode operands) :
    ∃ behind : Machine ω, machine.step = (Machine.execute pc opcode).run.run behind ∧
      Poised code (pc + 1) (steps + 1) words behind ∧ behind.Ahead operands := by
  have hahead : machine.Ahead (opcode.word :: operands) := by
    rw [Ahead, h.code, h.pc]
    exact hcode
  obtain ⟨hfetch, hbehind⟩ := hahead.fetch
  have hstep := h.undisturbed.step_opcode h.running hfetch (Opcode.ofWord?_word opcode)
  rw [h.pc] at hstep
  refine ⟨machine.announce.behindOpcode, hstep, ?_, hbehind⟩
  exact
    { h with
      pc := congrArg (· + 1) h.pc
      steps := congrArg (· + 1) h.steps
      undisturbed := h.undisturbed.announce }

/-- A word is pushed on the live words. -/
theorem push (h : Poised code pc steps words machine) {word : Int32}
    (hcode : InstructionAt code pc .push [word]) :
    machine.step.1 = .ok .running ∧
      Poised code (pc + 2) (steps + 1) (words ++ [word]) machine.step.2 := by
  obtain ⟨behind, hstep, hpoised, hahead⟩ := h.step_eq hcode
  obtain ⟨hsound, hlist⟩ := hpoised.sound.push word
  have hrun : (Machine.execute pc .push).run.run behind =
      (.ok .running, { behind with pc := behind.pc + 1, stack := behind.stack.push word }) :=
    hahead.run_operand_bind pc .push _
  rw [hstep, hrun]
  exact ⟨rfl,
    { hpoised with
      pc := congrArg (· + 1) hpoised.pc
      sound := hsound
      stack := by rw [hlist, hpoised.stack] }⟩

/-- The two topmost words are replaced by their sum. -/
theorem add {first second : Int32} (h : Poised code pc steps (words ++ [first, second]) machine)
    (hcode : InstructionAt code pc .add []) :
    machine.step.1 = .ok .running ∧
      Poised code (pc + 1) (steps + 1) (words ++ [first + second]) machine.step.2 := by
  obtain ⟨behind, hstep, hpoised, -⟩ := h.step_eq hcode
  have hsecond : behind.stack.toList = (words ++ [first]) ++ [second] := by
    rw [hpoised.stack, List.append_assoc]
    rfl
  obtain ⟨lower, hpop, hlower, hfirst⟩ := hpoised.sound.pop_of_snoc hsecond
  obtain ⟨lowest, hpopAgain, hlowest, hwords⟩ := hlower.pop_of_snoc hfirst
  obtain ⟨hsound, hlist⟩ := hlowest.push (first + second)
  have hrun : (Machine.execute pc .add).run.run behind =
      (.ok .running, { behind with stack := lowest.push (first + second) }) := by
    have hpair : (popPair pc .add).run.run behind =
        (.ok (first, second), { behind with stack := lowest }) := by
      rw [popPair, run_bind, run_pop, hpop]
      dsimp only
      rw [run_bind, run_pop]
      dsimp only
      rw [hpopAgain]
      rfl
    rw [Machine.execute, run_bind, hpair]
    rfl
  rw [hstep, hrun]
  exact ⟨rfl,
    { hpoised with
      sound := hsound
      stack := by rw [hlist, hwords] }⟩

/-- A conditional jump is taken if the top of the stack differs from its first operand. -/
theorem jne {top compared target : Int32} (h : Poised code pc steps (words ++ [top]) machine)
    (hcode : InstructionAt code pc .jne [compared, target]) (htarget : 0 ≤ target.toInt) :
    machine.step.1 = .ok .running ∧
      Poised code (if top = compared then pc + 3 else target.toInt.toNat) (steps + 1)
        (words ++ [top]) machine.step.2 := by
  obtain ⟨behind, hstep, hpoised, hahead⟩ := h.step_eq hcode
  have htop : behind.stack.top? = some top := by
    rw [hpoised.sound.top?_eq, hpoised.stack, List.getLast?_concat]
  have hsign : ¬ target < 0 := by
    intro hnegative
    have hbelow : target.toInt < 0 := Int32.lt_iff_toInt_lt.mp hnegative
    omega
  have hrun : (Machine.execute pc .jne).run.run behind =
      (.ok .running, { behind with
        pc := if top = compared then behind.pc + 2 else target.toInt.toNat }) := by
    rw [Machine.execute, run_bind, run_branch pc .jne hahead, htop]
    dsimp only
    by_cases hequal : top = compared
    · rw [if_neg (by simp [hequal]), if_pos hequal]
      rfl
    · rw [if_pos (by simp [hequal]), run_jump, if_neg hsign, if_neg hequal]
      rfl
  rw [hstep, hrun]
  refine ⟨rfl, { hpoised with pc := ?_ }⟩
  dsimp only
  rw [hpoised.pc]

/-- The halting instruction is the last, and leaves the live words. -/
theorem halt (h : Poised code pc steps words machine) (hcode : InstructionAt code pc .halt []) :
    machine.step.1 = .ok .halted ∧ machine.step.2.halted = true ∧ machine.step.2.pc = pc + 1 ∧
      machine.step.2.steps = steps + 1 ∧ machine.step.2.stack.toList = words := by
  obtain ⟨behind, hstep, hpoised, -⟩ := h.step_eq hcode
  have hrun : (Machine.execute pc .halt).run.run behind =
      (.ok .halted, { behind with halted := true }) := rfl
  rw [hstep, hrun]
  exact ⟨rfl, rfl, hpoised.pc, hpoised.steps, hpoised.stack⟩

end Poised

end LanguageKit.Machine
