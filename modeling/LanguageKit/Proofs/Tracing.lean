import LanguageKit.Proofs.StepCalls

/-!
# Tracing is a side channel

No part of a step looks at the output or asks whether the machine traces, apart from
the two parts that write. So two machines that differ only in these respects go
through the same steps, as long as neither of their outputs refuses a text: they
write the same texts, except that a machine that traces writes the line of each step
in front of what the step writes by itself.
-/

namespace LanguageKit.Machine

open Text

variable {ω α β : Type}

/-- The same machine with another output, and with tracing on or off. -/
def redirect (machine : Machine ω) (tracing : Bool) (sink : ω) : Machine ω :=
  { machine with tracing, sink }

/-- A part of a step that works inside the machine. -/
structure Internal (part : Exec ω α) : Prop where
  /-- With another output the part does the same, and leaves that output alone. -/
  redirect : ∀ (machine : Machine ω) (tracing : Bool) (sink : ω),
    part.run.run (machine.redirect tracing sink) =
      ((part.run.run machine).1, (part.run.run machine).2.redirect tracing sink)
  /-- The part leaves the program alone. -/
  code : ∀ machine : Machine ω, (part.run.run machine).2.code = machine.code

/-- Two parts in a row work inside the machine if both do. -/
theorem Internal.bind {part : Exec ω α} {rest : α → Exec ω β} (h : Internal part)
    (hrest : ∀ answer, Internal (rest answer)) : Internal (part >>= rest) := by
  constructor
  · intro machine tracing sink
    rw [run_bind, run_bind, h.redirect machine tracing sink]
    obtain ⟨fault | answer, next⟩ := part.run.run machine
    · rfl
    · exact (hrest answer).redirect next tracing sink
  · intro machine
    have hcode := h.code machine
    rw [run_bind]
    generalize part.run.run machine = ran at hcode
    obtain ⟨fault | answer, next⟩ := ran
    · exact hcode
    · exact ((hrest answer).code next).trans hcode

/-- Giving an answer works inside the machine. -/
theorem internal_pure (answer : α) : Internal (Pure.pure answer : Exec ω α) :=
  ⟨fun _ _ _ => rfl, fun _ => rfl⟩

/-- A fault works inside the machine. -/
theorem internal_throw (fault : Fault) : Internal (throw fault : Exec ω α) :=
  ⟨fun _ _ _ => rfl, fun _ => rfl⟩

variable (pc : Nat) (opcode : Opcode)

/-- Reading an operand works inside the machine. -/
theorem internal_operand : Internal (operand (ω := ω) pc opcode) := by
  constructor
  · intro machine tracing sink
    rw [run_operand, run_operand]
    dsimp only [redirect]
    cases machine.code[machine.pc]? <;> rfl
  · intro machine
    rw [run_operand]
    cases machine.code[machine.pc]? <;> rfl

/-- Taking a word off the stack works inside the machine. -/
theorem internal_pop : Internal (pop (ω := ω) pc opcode) := by
  constructor
  · intro machine tracing sink
    rw [run_pop, run_pop]
    dsimp only [redirect]
    obtain ⟨_ | word, stack⟩ := machine.stack.pop <;> rfl
  · intro machine
    rw [run_pop]
    obtain ⟨_ | word, stack⟩ := machine.stack.pop <;> rfl

/-- Taking two words off the stack works inside the machine. -/
theorem internal_popPair : Internal (popPair (ω := ω) pc opcode) :=
  (internal_pop pc opcode).bind fun _ =>
    (internal_pop pc opcode).bind fun _ => internal_pure _

/-- Taking a dividend and a divisor works inside the machine. -/
theorem internal_popDivision : Internal (popDivision (ω := ω) pc opcode) := by
  refine (internal_popPair pc opcode).bind fun pair => ?_
  dsimp only
  split
  · exact internal_throw _
  · exact internal_pure _

/-- Putting a word on the stack works inside the machine. -/
theorem internal_push (word : Int32) : Internal (push (ω := ω) word) :=
  ⟨fun _ _ _ => rfl, fun _ => rfl⟩

/-- Filling the result registers works inside the machine. -/
theorem internal_setResults (low high : Int32) : Internal (setResults (ω := ω) low high) :=
  ⟨fun _ _ _ => rfl, fun _ => rfl⟩

/-- A jump works inside the machine. -/
theorem internal_jump (target : Int32) : Internal (jump (ω := ω) target) := by
  constructor
  · intro machine tracing sink
    rw [run_jump, run_jump]
    split <;> rfl
  · intro machine
    rw [run_jump]
    split <;> rfl

/-- Looking at the machine works inside it if what follows does, and does not depend on
the output or on whether the machine traces. -/
theorem internal_get (rest : Machine ω → Exec ω α)
    (hsame : ∀ machine tracing sink, rest (machine.redirect tracing sink) = rest machine)
    (h : ∀ machine, Internal (rest machine)) : Internal (get >>= rest) := by
  constructor
  · intro machine tracing sink
    rw [run_get_bind, run_get_bind, hsame]
    exact (h machine).redirect machine tracing sink
  · intro machine
    rw [run_get_bind]
    exact (h machine).code machine

/-- A conditional jump works inside the machine. -/
theorem internal_branch (onEqual : Bool) : Internal (branch (ω := ω) pc opcode onEqual) := by
  refine (internal_operand pc opcode).bind fun word => ?_
  refine (internal_operand pc opcode).bind fun target => ?_
  refine internal_get _ (fun _ _ _ => rfl) fun machine => ?_
  cases machine.stack.top? with
  | none => exact internal_throw _
  | some top =>
    dsimp only
    split
    · exact internal_jump target
    · exact internal_pure ()

/-- What an instruction writes by itself: printing writes the word on top, in decimal
and in a line of its own, if there is one. -/
def printedBy (machine : Machine ω) (opcode : Opcode) : List String :=
  match opcode, machine.stack.top? with
  | .print, some top => [wordText top ++ "\n"]
  | _, _ => []

/-- An instruction that does not print writes nothing by itself. -/
theorem printedBy_of_ne_print (machine : Machine ω) {opcode : Opcode} (h : opcode ≠ .print) :
    machine.printedBy opcode = [] := by
  unfold printedBy
  split
  · exact absurd rfl h
  · rfl

/-- What the next step writes by itself, apart from its line. -/
def printed (machine : Machine ω) : List String :=
  if machine.halted then []
  else
    match machine.code[machine.pc]?.bind Opcode.ofWord? with
    | some opcode => machine.printedBy opcode
    | none => []

variable [Output ω]

/-- An instruction that does not print works inside the machine. -/
theorem internal_execute (h : opcode ≠ .print) : Internal (execute (ω := ω) pc opcode) := by
  have hrunning : Internal (Pure.pure Progress.running : Exec ω Progress) := internal_pure _
  have hpush (word : Int32) : Internal (ω := ω) (do push word; return Progress.running) :=
    (internal_push word).bind fun _ => hrunning
  have hset (low high : Int32) :
      Internal (ω := ω) (do setResults low high; return Progress.running) :=
    (internal_setResults low high).bind fun _ => hrunning
  cases opcode with
  | halt => exact ⟨fun _ _ _ => rfl, fun _ => rfl⟩
  | nop => exact hrunning
  | push => exact (internal_operand _ _).bind fun word => hpush word
  | pop => exact (internal_pop _ _).bind fun _ => hrunning
  | add => exact (internal_popPair _ _).bind fun _ => hpush _
  | mul => exact (internal_popPair _ _).bind fun _ => hset _ _
  | div => exact (internal_popDivision _ _).bind fun _ => hset _ _
  | mod => exact (internal_popDivision _ _).bind fun _ => hpush _
  | print => exact absurd rfl h
  | jeq => exact (internal_branch _ _ _).bind fun _ => hrunning
  | jne => exact (internal_branch _ _ _).bind fun _ => hrunning
  | j =>
    exact (internal_operand _ _).bind fun target => (internal_jump target).bind fun _ => hrunning
  | slt =>
    exact (internal_pop _ _).bind fun _ => (internal_operand _ _).bind fun _ => hpush _
  | sll => exact (internal_popPair _ _).bind fun _ => hpush _
  | srl => exact (internal_popPair _ _).bind fun _ => hpush _

/-- Printing takes the word on top, and writes it if nothing refuses it. -/
theorem run_print (machine : Machine ω) (h : Output.Accepting machine.sink) (pc : Nat) :
    (execute pc .print).run.run machine =
      match machine.stack.pop with
      | (none, _) => (.error (.stackUnderflow pc .print), machine)
      | (some word, stack) =>
        (.ok .running,
          { machine with
            stack
            sink := Output.writeAll machine.sink [wordText word ++ "\n"] }) := by
  have hprinting : (execute pc .print).run.run machine =
      (pop pc .print >>= fun printed =>
        write pc (wordText printed ++ "\n") >>= fun _ => Pure.pure .running).run.run machine := rfl
  rw [hprinting, run_bind, run_pop]
  obtain ⟨_ | word, stack⟩ := machine.stack.pop
  · rfl
  · dsimp only
    rw [run_bind, run_write { machine with stack } h]
    rfl

/-- An instruction does the same with another output that never refuses a text, and
writes there what it writes by itself. -/
theorem execute_redirect (machine : Machine ω) (h : Output.Accepting machine.sink) {sink : ω}
    (hsink : Output.Accepting sink) (pc : Nat) (opcode : Opcode) (tracing : Bool) :
    (execute pc opcode).run.run (machine.redirect tracing sink) =
      (((execute pc opcode).run.run machine).1,
        ((execute pc opcode).run.run machine).2.redirect tracing
          (Output.writeAll sink (machine.printedBy opcode))) := by
  by_cases hprint : opcode = .print
  · subst hprint
    rw [run_print machine h, run_print (machine.redirect tracing sink) hsink]
    unfold Stack.pop printedBy redirect
    dsimp only
    cases machine.stack.top? <;> rfl
  · rw [machine.printedBy_of_ne_print hprint]
    exact (internal_execute pc opcode hprint).redirect machine tracing sink

/-- An instruction leaves the program alone. -/
theorem code_execute (machine : Machine ω) (h : Output.Accepting machine.sink) (pc : Nat)
    (opcode : Opcode) : ((execute pc opcode).run.run machine).2.code = machine.code := by
  by_cases hprint : opcode = .print
  · subst hprint
    rw [run_print machine h]
    obtain ⟨_ | word, stack⟩ := machine.stack.pop <;> rfl
  · exact (internal_execute pc opcode hprint).code machine

/-- A step does the same with another output that never refuses a text. It writes its
line there if tracing is on, and then what it writes by itself. -/
theorem step_redirect (machine : Machine ω) (h : Output.Accepting machine.sink) {sink : ω}
    (hsink : Output.Accepting sink) (tracing : Bool) :
    (machine.redirect tracing sink).step =
      (machine.step.1,
        machine.step.2.redirect tracing (Output.writeAll sink
          ((if tracing then machine.announced else []) ++ machine.printed))) := by
  by_cases hhalted : machine.halted = true
  · have hannounced : machine.announced = [] := dif_neg fun hrun => by simp [hhalted] at hrun
    have hprinted : machine.printed = [] := if_pos hhalted
    rw [step_of_halted machine hhalted, step_of_halted (machine.redirect tracing sink) hhalted,
      hannounced, hprinted, ite_self]
    rfl
  have hrunning : machine.halted = false := eq_false_of_ne_true hhalted
  cases hfetch : machine.code[machine.pc]? with
  | none =>
    have hannounced : machine.announced = [] :=
      dif_neg fun hrun => Nat.not_lt.mpr (Array.getElem?_eq_none_iff.mp hfetch) hrun.2
    have hprinted : machine.printed = [] := by
      rw [printed, if_neg hhalted, hfetch, Option.bind_none]
    rw [step_of_outside machine hrunning hfetch,
      step_of_outside (machine.redirect tracing sink) hrunning hfetch,
      hannounced, hprinted, ite_self]
    rfl
  | some word =>
    cases hword : Opcode.ofWord? word with
    | none =>
      have hprinted : machine.printed = [] := by
        rw [printed, if_neg hhalted, hfetch, Option.bind_some, hword]
      rw [step_of_unknown machine h hrunning hfetch hword,
        step_of_unknown (machine.redirect tracing sink) hsink hrunning hfetch hword,
        hprinted, List.append_nil]
      rfl
    | some opcode =>
      have hprinted : machine.printed = machine.printedBy opcode := by
        rw [printed, if_neg hhalted, hfetch, Option.bind_some, hword]
      rw [step_of_opcode machine h hrunning hfetch hword,
        step_of_opcode (machine.redirect tracing sink) hsink hrunning hfetch hword,
        hprinted, Output.writeAll_append]
      exact execute_redirect
        { machine.announce with pc := machine.pc + 1, steps := machine.steps + 1 }
        (h.writeAll _) (hsink.writeAll _) machine.pc opcode tracing

/-- A step leaves the program alone. -/
theorem code_step {machine : Machine ω} (h : Output.Accepting machine.sink) :
    machine.step.2.code = machine.code := by
  by_cases hhalted : machine.halted = true
  · rw [step_of_halted machine hhalted]
  have hrunning : machine.halted = false := eq_false_of_ne_true hhalted
  cases hfetch : machine.code[machine.pc]? with
  | none => rw [step_of_outside machine hrunning hfetch]
  | some word =>
    cases hword : Opcode.ofWord? word with
    | none =>
      rw [step_of_unknown machine h hrunning hfetch hword]
      rfl
    | some opcode =>
      rw [step_of_opcode machine h hrunning hfetch hword]
      exact code_execute
        { machine.announce with pc := machine.pc + 1, steps := machine.steps + 1 }
        (h.writeAll _) machine.pc opcode

/-- An output that never refuses a text does not refuse one after a step. -/
theorem accepting_step {machine : Machine ω} (h : Output.Accepting machine.sink) :
    Output.Accepting machine.step.2.sink := by
  have hstep : machine.step.2 = _ := congrArg Prod.snd (step_redirect machine h h machine.tracing)
  rw [hstep]
  exact h.writeAll _

/-- Calls of a step leave an output that never refuses a text able to take the next
one, and the program alone. -/
theorem afterCalls_invariant (machine : Machine ω) (h : Output.Accepting machine.sink)
    (count : Nat) :
    Output.Accepting (machine.afterCalls count).sink ∧
      (machine.afterCalls count).code = machine.code := by
  induction count with
  | zero => exact ⟨h, rfl⟩
  | succ count ih =>
    obtain ⟨haccepting, hcode⟩ := ih
    exact ⟨accepting_step haccepting, (code_step haccepting).trans hcode⟩

/-- What a number of calls of a step write: for each call the line, if tracing is on,
and then what the step writes by itself. -/
def writings (machine : Machine ω) (tracing : Bool) (count : Nat) : List String :=
  (List.range count).flatMap fun call =>
    (if tracing then (machine.afterCalls call).announced else []) ++
      (machine.afterCalls call).printed

/-- Calls of a step do the same with another output that never refuses a text. -/
theorem afterCalls_redirect (machine : Machine ω) (h : Output.Accepting machine.sink) {sink : ω}
    (hsink : Output.Accepting sink) (tracing : Bool) (count : Nat) :
    (machine.redirect tracing sink).afterCalls count =
      (machine.afterCalls count).redirect tracing
        (Output.writeAll sink (machine.writings tracing count)) := by
  induction count with
  | zero => rfl
  | succ count ih =>
    have hwritings : machine.writings tracing (count + 1) = machine.writings tracing count ++
        ((if tracing then (machine.afterCalls count).announced else []) ++
          (machine.afterCalls count).printed) := by
      rw [writings, List.range_succ, List.flatMap_append, List.flatMap_singleton]
      rfl
    have hstep := step_redirect _ (afterCalls_invariant machine h count).1
      (hsink.writeAll (machine.writings tracing count)) tracing
    have hcalls (machine : Machine ω) :
        machine.afterCalls (count + 1) = (machine.afterCalls count).step.2 := rfl
    rw [hcalls, hcalls, ih, hstep, hwritings, ← Output.writeAll_append]

/-- Tracing is a side channel: on every program and after any number of calls of a step,
those behind a fault included, a machine that traces differs from one that does not in
nothing but the output, and the next call brings both of them the same. The output of
the machine that does not trace is what its steps write by themselves; the other output
has, directly in front of what each step writes, the line of that step, which is one
line for a machine that has not halted and stands inside its program, and none
otherwise. -/
theorem tracing_writes_lines_only (code : Array Int32) {sink : ω} (h : Output.Accepting sink)
    (count : Nat) :
    let plain := (start code false sink).afterCalls
    let traced := (start code true sink).afterCalls
    (traced count).step.1 = (plain count).step.1 ∧
      traced count = { plain count with tracing := true, sink := (traced count).sink } ∧
      (plain count).sink = Output.writeAll sink
        ((List.range count).flatMap fun call => (plain call).printed) ∧
      (traced count).sink = Output.writeAll sink
        ((List.range count).flatMap fun call => (plain call).announced ++ (plain call).printed) ∧
      ((plain count).announced.length =
        if (plain count).halted = false ∧ (plain count).pc < code.size then 1 else 0) := by
  intro plain traced
  have htraced : traced count = (plain count).redirect true
      (Output.writeAll sink ((start code false sink).writings true count)) :=
    afterCalls_redirect (start code false sink) h h true count
  have hplain : plain count = (plain count).redirect false
      (Output.writeAll sink ((start code false sink).writings false count)) :=
    afterCalls_redirect (start code false sink) h h false count
  obtain ⟨haccepting, hcode⟩ : Output.Accepting (plain count).sink ∧ (plain count).code = code :=
    afterCalls_invariant (start code false sink) h count
  refine ⟨?_, ?_, ?_, ?_, ?_⟩
  · rw [htraced, step_redirect _ haccepting (h.writeAll _)]
  · rw [htraced]
    rfl
  · rw [hplain]
    rfl
  · rw [htraced]
    rfl
  · rw [← hcode, announced]
    split <;> rfl

/-- The words of a program that prints a word and then meets one that is no opcode. -/
def printingWords : Array Int32 := #[2, 7, 8, 99]

/-- The texts that three steps of the printing program write when they are traced: three
lines, and the printed word behind the second. -/
theorem tracing_writes_lines_only_printing :
    Output.Accepting ({} : Sink) ∧
      ((start printingWords true ({} : Sink)).afterCalls 3).sink = Output.writeAll ({} : Sink)
        ["0000: push [7] \t[]\n", "0002: print [] \t[7]\n", "7\n", "0003: .word 99 [] \t[]\n"] ∧
      ((start printingWords false ({} : Sink)).afterCalls 3).sink =
        Output.writeAll ({} : Sink) ["7\n"] := by
  have hsink : Output.Accepting ({} : Sink) := Sink.accepting rfl
  obtain ⟨-, -, hplain, htraced, -⟩ := tracing_writes_lines_only printingWords hsink 3
  exact ⟨hsink, htraced.trans (congrArg _ (by decide +kernel)),
    hplain.trans (congrArg _ (by decide +kernel))⟩

end LanguageKit.Machine
