import LanguageKit.Proofs.Tracing

/-!
# A step that traces announces itself and goes on in silence

The output may refuse a text. A machine that traces writes its line first: if the line is
refused, the step ends there, and otherwise it goes on as the step of a machine that does
not trace. So what a step does besides its line can be read off machines that do not trace.
-/

namespace LanguageKit.Machine

open Text

variable {ω α : Type}

/-- The machine behind the opcode it stands at, which is counted. -/
def behindOpcode (machine : Machine ω) : Machine ω :=
  { machine with pc := machine.pc + 1, steps := machine.steps + 1 }

/-- A part of a step that works inside the machine does the same whether the machine
traces or not. -/
theorem Internal.run_tracing {part : Exec ω α} (h : Internal part) (machine : Machine ω)
    (tracing : Bool) :
    part.run.run { machine with tracing } =
      ((part.run.run machine).1, { (part.run.run machine).2 with tracing }) := by
  have hsame := h.redirect machine machine.tracing machine.sink
  have hsink : (part.run.run machine).2.sink = machine.sink :=
    congrArg (fun outcome => outcome.2.sink) hsame
  have hother := h.redirect machine tracing machine.sink
  rw [← hsink] at hother
  have hstart : machine.redirect tracing (part.run.run machine).2.sink =
      { machine with tracing } := by
    rw [hsink]
    rfl
  rw [hstart] at hother
  exact hother

variable [Output ω]

/-- Writing hands a text to the output, which may refuse it. -/
theorem run_write_text (machine : Machine ω) (pc : Nat) (text : String) :
    (write pc text).run.run machine =
      match Output.write machine.sink text with
      | (.ok (), sink) => (.ok (), { machine with sink })
      | (.error refusal, sink) => (.error (.refusedOutput pc refusal), { machine with sink }) := by
  unfold write
  rw [run_get_bind]
  obtain ⟨_ | _, sink⟩ := Output.write machine.sink text <;> rfl

/-- A machine that does not trace writes no line. -/
theorem run_trace_silent {machine : Machine ω} (h : machine.tracing = false) (pc : Nat)
    (name : String) (operandCount : Nat) :
    (trace pc name operandCount).run.run machine = (.ok (), machine) := by
  unfold trace
  rw [run_get_bind, h, if_neg Bool.false_ne_true]
  rfl

/-- A machine that traces writes its line. -/
theorem run_trace_traced {machine : Machine ω} (h : machine.tracing = true) (pc : Nat)
    (name : String) (operandCount : Nat) :
    (trace pc name operandCount).run.run machine =
      (write pc (machine.traceLine pc name operandCount)).run.run machine := by
  unfold trace
  rw [run_get_bind, h, if_pos rfl]

/-- Printing takes the word on top and hands it to the output. -/
theorem run_print_text (machine : Machine ω) (pc : Nat) :
    (execute pc .print).run.run machine =
      match machine.stack.pop with
      | (none, _) => (.error (.stackUnderflow pc .print), machine)
      | (some word, stack) =>
        match Output.write machine.sink (wordText word ++ "\n") with
        | (.ok (), sink) => (.ok .running, { machine with stack, sink })
        | (.error refusal, sink) =>
          (.error (.refusedOutput pc refusal), { machine with stack, sink }) := by
  have hprinting : (execute pc .print).run.run machine =
      (pop pc .print >>= fun printed =>
        write pc (wordText printed ++ "\n") >>= fun _ => Pure.pure .running).run.run machine := rfl
  rw [hprinting, run_bind, run_pop]
  obtain ⟨_ | word, stack⟩ := machine.stack.pop
  · rfl
  · dsimp only
    rw [run_bind, run_write_text]
    dsimp only
    obtain ⟨_ | _, sink⟩ := Output.write machine.sink (wordText word ++ "\n") <;> rfl

/-- An instruction does the same whether the machine traces or not. -/
theorem execute_tracing (machine : Machine ω) (pc : Nat) (opcode : Opcode) (tracing : Bool) :
    (execute pc opcode).run.run { machine with tracing } =
      (((execute pc opcode).run.run machine).1,
        { ((execute pc opcode).run.run machine).2 with tracing }) := by
  by_cases hprint : opcode = .print
  · subst hprint
    rw [run_print_text, run_print_text]
    dsimp only
    obtain ⟨_ | word, stack⟩ := machine.stack.pop
    · rfl
    · dsimp only
      obtain ⟨_ | _, sink⟩ := Output.write machine.sink (wordText word ++ "\n") <;> rfl
  · exact (internal_execute pc opcode hprint).run_tracing machine tracing

/-- A step at a word that is no opcode traces it and faults. -/
theorem step_fetch_unknown {machine : Machine ω} (hrunning : machine.halted = false)
    {word : Int32} (hfetch : machine.code[machine.pc]? = some word)
    (hword : Opcode.ofWord? word = none) :
    machine.step = (trace machine.pc (".word " ++ wordText word) 0 >>= fun _ =>
      throw (.unknownOpcode machine.pc word)).run.run machine := by
  unfold step stepping
  rw [run_get_bind, hrunning, hfetch]
  dsimp only
  rw [hword, if_neg Bool.false_ne_true]

/-- A step at an opcode traces it, counts it, and carries its instruction out. -/
theorem step_fetch_opcode {machine : Machine ω} (hrunning : machine.halted = false)
    {word : Int32} (hfetch : machine.code[machine.pc]? = some word) {opcode : Opcode}
    (hword : Opcode.ofWord? word = some opcode) :
    machine.step = (trace machine.pc opcode.name opcode.operandCount >>= fun _ =>
      (modify fun traced => { traced with pc := traced.pc + 1, steps := traced.steps + 1 }) >>=
        fun _ => execute machine.pc opcode).run.run machine := by
  unfold step stepping
  rw [run_get_bind, hrunning, hfetch]
  dsimp only
  rw [hword, if_neg Bool.false_ne_true]

/-- In silence, a word that is no opcode changes nothing. -/
theorem step_silent_unknown (machine : Machine ω) (hsilent : machine.tracing = false)
    (hrunning : machine.halted = false) {word : Int32}
    (hfetch : machine.code[machine.pc]? = some word) (hword : Opcode.ofWord? word = none) :
    machine.step = (.error (.unknownOpcode machine.pc word), machine) := by
  rw [step_fetch_unknown hrunning hfetch hword, run_bind, run_trace_silent hsilent]
  rfl

/-- In silence, an opcode is counted, and its instruction is carried out behind it. -/
theorem step_silent_opcode (machine : Machine ω) (hsilent : machine.tracing = false)
    (hrunning : machine.halted = false) {word : Int32}
    (hfetch : machine.code[machine.pc]? = some word) {opcode : Opcode}
    (hword : Opcode.ofWord? word = some opcode) :
    machine.step = (execute machine.pc opcode).run.run machine.behindOpcode := by
  rw [step_fetch_opcode hrunning hfetch hword, run_bind, run_trace_silent hsilent]
  rfl

/-- What a traced step brings with its line: what a step in silence brings, if the output
takes the line, and the fault of the output otherwise. -/
def behindLine (machine : Machine ω) (line : String) : Except Fault Progress × Machine ω :=
  match Output.write machine.sink line with
  | (.error refusal, sink) => (.error (.refusedOutput machine.pc refusal), { machine with sink })
  | (.ok (), sink) =>
    let silent := (machine.redirect false sink).step
    (silent.1, { silent.2 with tracing := true })

/-- A line that the output refuses ends the step. -/
theorem behindLine_refused (machine : Machine ω) {line : String} {refusal : Refusal} {sink : ω}
    (h : Output.write machine.sink line = (.error refusal, sink)) :
    machine.behindLine line =
      (.error (.refusedOutput machine.pc refusal), { machine with sink }) := by
  rw [behindLine, h]

/-- A line that the output takes is followed by a step in silence. -/
theorem behindLine_taken (machine : Machine ω) {line : String} {sink : ω}
    (h : Output.write machine.sink line = (.ok (), sink)) :
    machine.behindLine line = ((machine.redirect false sink).step.1,
      { (machine.redirect false sink).step.2 with tracing := true }) := by
  rw [behindLine, h]

/-- A step that traces writes the line of the word it fetches and goes on in silence. -/
theorem step_traced {machine : Machine ω} (htracing : machine.tracing = true)
    (hrunning : machine.halted = false) {word : Int32}
    (hfetch : machine.code[machine.pc]? = some word) :
    machine.step = machine.behindLine (machine.announcement word) := by
  have hkept (sink : ω) : { machine with sink } = { machine with tracing := true, sink } := by
    rw [← htracing]
  unfold behindLine announcement
  cases hword : Opcode.ofWord? word with
  | none =>
    rw [step_fetch_unknown hrunning hfetch hword, run_bind, run_trace_traced htracing,
      run_write_text]
    dsimp only
    obtain ⟨_ | _, sink⟩ :=
      Output.write machine.sink (machine.traceLine machine.pc (".word " ++ wordText word) 0)
    · rfl
    · dsimp only
      rw [step_silent_unknown (machine.redirect false sink) rfl hrunning hfetch hword,
        hkept]
      rfl
  | some opcode =>
    rw [step_fetch_opcode hrunning hfetch hword, run_bind, run_trace_traced htracing,
      run_write_text]
    dsimp only
    obtain ⟨_ | _, sink⟩ :=
      Output.write machine.sink (machine.traceLine machine.pc opcode.name opcode.operandCount)
    · rfl
    · dsimp only
      rw [step_silent_opcode (machine.redirect false sink) rfl hrunning hfetch hword,
        ← execute_tracing, hkept]
      rfl

/-- An instruction leaves tracing on or off. -/
theorem tracing_execute (machine : Machine ω) (pc : Nat) (opcode : Opcode) :
    ((execute pc opcode).run.run machine).2.tracing = machine.tracing :=
  congrArg (fun outcome => outcome.2.tracing) (execute_tracing machine pc opcode machine.tracing)

/-- A step leaves tracing on or off. -/
theorem tracing_step (machine : Machine ω) : machine.step.2.tracing = machine.tracing := by
  by_cases hhalted : machine.halted = true
  · rw [step_of_halted machine hhalted]
  have hrunning : machine.halted = false := eq_false_of_ne_true hhalted
  cases hfetch : machine.code[machine.pc]? with
  | none => rw [step_of_outside machine hrunning hfetch]
  | some word =>
    cases htracing : machine.tracing with
    | true =>
      rw [step_traced htracing hrunning hfetch, behindLine]
      obtain ⟨_ | _, sink⟩ := Output.write machine.sink (machine.announcement word)
      · exact htracing
      · rfl
    | false =>
      cases hword : Opcode.ofWord? word with
      | none =>
        rw [step_silent_unknown machine htracing hrunning hfetch hword]
        exact htracing
      | some opcode =>
        rw [step_silent_opcode machine htracing hrunning hfetch hword]
        exact (tracing_execute _ _ _).trans htracing

/-- A step that brings no fault does what a step in silence does, with some place for the
output. -/
theorem exists_silent_of_ok {machine : Machine ω} (hrunning : machine.halted = false)
    {word : Int32} (hfetch : machine.code[machine.pc]? = some word) {progress : Progress}
    (hok : machine.step.1 = .ok progress) :
    ∃ sink, machine.step = ((machine.redirect false sink).step.1,
      { (machine.redirect false sink).step.2 with tracing := machine.tracing }) := by
  cases htracing : machine.tracing with
  | true =>
    have hstep := step_traced htracing hrunning hfetch
    rw [hstep] at hok
    match hwrite : Output.write machine.sink (machine.announcement word) with
    | (.error refusal, sink) =>
      rw [behindLine_refused machine hwrite] at hok
      contradiction
    | (.ok _, sink) => exact ⟨sink, by rw [hstep, behindLine_taken machine hwrite]⟩
  | false =>
    have hsame : machine.redirect false machine.sink = machine := by
      rw [redirect, ← htracing]
    have hkept : { machine.step.2 with tracing := false } = machine.step.2 := by
      rw [← htracing, ← tracing_step machine]
    refine ⟨machine.sink, ?_⟩
    rw [hsame, hkept]

end LanguageKit.Machine
