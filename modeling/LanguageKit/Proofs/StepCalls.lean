import LanguageKit.Proofs.StepLogic

/-!
# Calls of a step

A machine can be asked for one step after the other, whatever the steps bring: a
step behind a fault goes on with what the fault has left. Where the output goes to
a place that never refuses a text, there are four ways a step can go: the machine
has halted, it stands outside its program, it fetches a word that is no opcode, or
it carries out an instruction.
-/

namespace LanguageKit

namespace Output

variable {ω : Type} [Output ω]

/-- The place after texts have been written to it, one after the other. -/
def writeAll (sink : ω) (texts : List String) : ω :=
  texts.foldl (fun sink text => (write sink text).2) sink

/-- Writing some texts and then others is writing all of them. -/
theorem writeAll_append (sink : ω) (first second : List String) :
    writeAll sink (first ++ second) = writeAll (writeAll sink first) second :=
  List.foldl_append

/-- A place that never refuses a text, whatever has been written to it before. -/
def Accepting (sink : ω) : Prop :=
  ∀ (texts : List String) (text : String), (write (writeAll sink texts) text).1 = .ok ()

/-- A place that never refuses a text takes the next one. -/
theorem Accepting.write_eq {sink : ω} (h : Accepting sink) (text : String) :
    write sink text = (.ok (), writeAll sink [text]) :=
  Prod.ext (h [] text) rfl

/-- A place that never refuses a text does not refuse one later. -/
theorem Accepting.writeAll {sink : ω} (h : Accepting sink) (texts : List String) :
    Accepting (writeAll sink texts) := by
  intro later text
  rw [← writeAll_append]
  exact h (texts ++ later) text

end Output

/-- Without a limit, texts written to a sink stand one behind the other in it. -/
theorem Sink.writeAll_eq {sink : Sink} (h : sink.room = none) (texts : List String) :
    Output.writeAll sink texts = { sink with text := texts.foldl (· ++ ·) sink.text } := by
  induction texts generalizing sink with
  | nil => rfl
  | cons text texts ih =>
    have hwrite : (Output.write sink text).2 = { sink with text := sink.text ++ text } := by
      have hsink : Output.write sink text = sink.write text := rfl
      rw [hsink, Sink.write, h]
    have hcons : Output.writeAll sink (text :: texts) =
        Output.writeAll (Output.write sink text).2 texts := rfl
    have hopen : ({ sink with text := sink.text ++ text } : Sink).room = none := h
    rw [hcons, hwrite, ih hopen]
    rfl

/-- A sink without a limit never refuses a text. -/
theorem Sink.accepting {sink : Sink} (h : sink.room = none) : Output.Accepting sink := by
  intro texts text
  rw [writeAll_eq h]
  have hsink (sink : Sink) : Output.write sink text = sink.write text := rfl
  rw [hsink, Sink.write, h]

namespace Machine

open Text

variable {ω : Type}

/-- The line that shows the word a machine is going to execute: the instruction with
its operands, or the word itself if it is no opcode. -/
def announcement (machine : Machine ω) (word : Int32) : String :=
  match Opcode.ofWord? word with
  | some opcode => machine.traceLine machine.pc opcode.name opcode.operandCount
  | none => machine.traceLine machine.pc (".word " ++ wordText word) 0

/-- The lines that tracing a step is worth: one for a machine that has not halted and
stands inside its program, and none otherwise. -/
def announced (machine : Machine ω) : List String :=
  if h : machine.halted = false ∧ machine.pc < machine.code.size then
    [machine.announcement machine.code[machine.pc]]
  else []

/-- A machine that fetches a word announces it. -/
theorem announced_of_fetch {machine : Machine ω} (hrunning : machine.halted = false)
    {word : Int32} (hfetch : machine.code[machine.pc]? = some word) :
    machine.announced = [machine.announcement word] := by
  obtain ⟨hinside, hword⟩ := Array.getElem?_eq_some_iff.mp hfetch
  rw [announced, dif_pos ⟨hrunning, hinside⟩, hword]

variable [Output ω]

/-- The machine after a number of calls of a step, whatever they brought. -/
def afterCalls (machine : Machine ω) : Nat → Machine ω
  | 0 => machine
  | count + 1 => (machine.afterCalls count).step.2

/-- The machine after it has written its line, if it traces. -/
def announce (machine : Machine ω) : Machine ω :=
  { machine with
    sink := Output.writeAll machine.sink (if machine.tracing then machine.announced else []) }

/-- Writing to a place that never refuses a text brings no fault. -/
theorem run_write (machine : Machine ω) (h : Output.Accepting machine.sink) (pc : Nat)
    (text : String) :
    (write pc text).run.run machine =
      (.ok (), { machine with sink := Output.writeAll machine.sink [text] }) := by
  unfold write
  rw [run_get_bind, h.write_eq]
  rfl

/-- Tracing writes the line of the instruction, if the machine traces. -/
theorem run_trace {machine : Machine ω} (h : Output.Accepting machine.sink) {name : String}
    {operandCount : Nat}
    (hline : machine.announced = [machine.traceLine machine.pc name operandCount]) :
    (trace machine.pc name operandCount).run.run machine = (.ok (), machine.announce) := by
  unfold trace announce
  rw [run_get_bind, hline]
  by_cases htracing : machine.tracing = true
  · rw [if_pos htracing, if_pos htracing]
    exact run_write machine h machine.pc _
  · rw [if_neg htracing, if_neg htracing]
    rfl

/-- A machine that has halted stays as it is. -/
theorem step_of_halted (machine : Machine ω) (h : machine.halted = true) :
    machine.step = (.ok .halted, machine) := by
  unfold step stepping
  rw [run_get_bind, h]
  rfl

/-- Outside its program a machine stays as it is. -/
theorem step_of_outside (machine : Machine ω) (hrunning : machine.halted = false)
    (hfetch : machine.code[machine.pc]? = none) :
    machine.step = (.error (.outside machine.pc machine.code.size), machine) := by
  unfold step stepping
  rw [run_get_bind, hrunning, hfetch]
  rfl

/-- A word that is no opcode is announced and changes nothing. -/
theorem step_of_unknown (machine : Machine ω) (h : Output.Accepting machine.sink)
    (hrunning : machine.halted = false) {word : Int32}
    (hfetch : machine.code[machine.pc]? = some word) (hword : Opcode.ofWord? word = none) :
    machine.step = (.error (.unknownOpcode machine.pc word), machine.announce) := by
  have hline : machine.announced =
      [machine.traceLine machine.pc (".word " ++ wordText word) 0] := by
    rw [announced_of_fetch hrunning hfetch, announcement, hword]
  unfold step stepping
  rw [run_get_bind, hrunning, hfetch]
  dsimp only
  rw [hword]
  dsimp only
  rw [if_neg Bool.false_ne_true, run_bind, run_trace h hline]
  rfl

/-- An opcode is announced and counted, and its instruction is carried out behind it. -/
theorem step_of_opcode (machine : Machine ω) (h : Output.Accepting machine.sink)
    (hrunning : machine.halted = false) {word : Int32}
    (hfetch : machine.code[machine.pc]? = some word) {opcode : Opcode}
    (hword : Opcode.ofWord? word = some opcode) :
    machine.step = (execute machine.pc opcode).run.run
      { machine.announce with pc := machine.pc + 1, steps := machine.steps + 1 } := by
  have hline : machine.announced =
      [machine.traceLine machine.pc opcode.name opcode.operandCount] := by
    rw [announced_of_fetch hrunning hfetch, announcement, hword]
  unfold step stepping
  rw [run_get_bind, hrunning, hfetch]
  dsimp only
  rw [hword]
  dsimp only
  rw [if_neg Bool.false_ne_true, run_bind, run_trace h hline]
  rfl

end Machine

end LanguageKit
