import LanguageKit.Proofs.Announcement
import LanguageKit.Proofs.LiveStack

/-!
# What a fault leaves behind

A step that faults keeps what it did before the fault, and a machine can be asked for
further steps behind it. A fault before the instruction is counted leaves address, count
and stack alone. Behind that, operands have been read and words have been taken off the
stack, in an order that depends on the opcode; what is left can be told from the fault.
-/

namespace LanguageKit

open Text

namespace Machine

variable {ω : Type} {machine after now : Machine ω}

/-- A fault came before the instruction was counted. -/
structure Untouched (machine after : Machine ω) : Prop where
  /-- The machine stands where it stood. -/
  pc : after.pc = machine.pc
  /-- No step has been counted. -/
  steps : after.steps = machine.steps
  /-- The stack is the same, with its capacity and its counts. -/
  stack : after.stack = machine.stack

/-- A fault came behind the opcode of an instruction. -/
structure Counted (machine : Machine ω) (opcode : Opcode) (after : Machine ω) : Prop where
  /-- The machine stood at the opcode. -/
  fetch : machine.code[machine.pc]? = some opcode.word
  /-- The step has been counted. -/
  steps : after.steps = machine.steps + 1
  /-- The machine stands behind the operands that the program has for the opcode. Only a
  comparison looks at the stack before it reads its operand. -/
  pc : after.pc =
    if opcode = .slt ∧ machine.stack.toList = [] then machine.pc + 1
    else min (machine.pc + 1 + opcode.operandCount) machine.code.size

variable [Output ω]

/-- The ways in which a step can fault, with what each of them leaves of address, count of
steps and stack. -/
inductive Aftermath (machine after : Machine ω) : Fault → Prop where
  /-- The machine stands outside its program. -/
  | outside (address : machine.code.size ≤ machine.pc) (untouched : Untouched machine after) :
      Aftermath machine after (.outside machine.pc machine.code.size)
  /-- The output refuses the line of the trace. -/
  | refusedLine {word : Int32} {refusal : Refusal} (tracing : machine.tracing = true)
      (fetch : machine.code[machine.pc]? = some word)
      (refused : Output.write machine.sink (machine.announcement word) =
        (.error refusal, after.sink))
      (untouched : Untouched machine after) :
      Aftermath machine after (.refusedOutput machine.pc refusal)
  /-- The word is no opcode. -/
  | unknownOpcode {word : Int32} (fetch : machine.code[machine.pc]? = some word)
      (unknown : Opcode.ofWord? word = none) (untouched : Untouched machine after) :
      Aftermath machine after (.unknownOpcode machine.pc word)
  /-- The program ends before an operand. A comparison has lost the top of the stack, and
  every other instruction has left the stack alone. -/
  | missingOperand {opcode : Opcode} (counted : Counted machine opcode after)
      (pc : after.pc = machine.code.size)
      (compared : opcode = .slt → ∃ top, machine.stack.toList = after.stack.toList ++ [top])
      (kept : opcode ≠ .slt → after.stack = machine.stack) :
      Aftermath machine after (.missingOperand machine.pc opcode)
  /-- At most one word was live, and none is left. -/
  | stackUnderflow {opcode : Opcode} (counted : Counted machine opcode after)
      (few : machine.stack.toList.length ≤ 1) (empty : after.stack.toList = []) :
      Aftermath machine after (.stackUnderflow machine.pc opcode)
  /-- A division has taken a dividend and the zero above it. -/
  | divideByZero {opcode : Opcode} {dividend : Int32} (divides : opcode = .div ∨ opcode = .mod)
      (counted : Counted machine opcode after)
      (stack : machine.stack.toList = after.stack.toList ++ [dividend, 0]) :
      Aftermath machine after (.divideByZero machine.pc opcode)
  /-- The output, behind the line of the trace, refuses the word that was taken to be
  printed. -/
  | refusedPrint {word : Int32} {refusal : Refusal} (counted : Counted machine .print after)
      (stack : machine.stack.toList = after.stack.toList ++ [word])
      (refused : Output.write machine.announce.sink (wordText word ++ "\n") =
        (.error refusal, after.sink)) :
      Aftermath machine after (.refusedOutput machine.pc refusal)
  /-- A jump has a negative address. -/
  | negativeJump {opcode : Opcode} {target : Int32}
      (jumps : opcode = .j ∨ opcode = .jeq ∨ opcode = .jne)
      (counted : Counted machine opcode after) (negative : target < 0)
      (stack : after.stack = machine.stack) :
      Aftermath machine after (.outside target.toInt machine.code.size)

/-- What a fault leaves behind in full. -/
structure LeftBy (machine : Machine ω) (fault : Fault) (after : Machine ω) : Prop where
  /-- The registers are the same. -/
  registers : after.registers = machine.registers
  /-- The program is the same. -/
  code : after.code = machine.code
  /-- The machine has halted if it had. -/
  halted : after.halted = machine.halted
  /-- The stack is sound. -/
  sound : after.stack.Sound
  /-- Address, count of steps and stack are as the fault tells. -/
  aftermath : Aftermath machine after fault

/-- A machine on its way through an instruction. -/
structure Midway (machine : Machine ω) (opcode : Opcode) (read : Nat) (taken : List Int32)
    (now : Machine ω) : Prop where
  /-- The step began at the opcode. -/
  fetch : machine.code[machine.pc]? = some opcode.word
  /-- The registers have not been filled. -/
  registers : now.registers = machine.registers
  /-- The program is the same. -/
  code : now.code = machine.code
  /-- The machine has halted if it had. -/
  halted : now.halted = machine.halted
  /-- The step has been counted. -/
  steps : now.steps = machine.steps + 1
  /-- Nothing but the line of the trace has been written. -/
  sink : now.sink = machine.announce.sink
  /-- Some operands have been read. -/
  pc : now.pc = machine.pc + 1 + read
  /-- All of them are in the program. -/
  inside : now.pc ≤ machine.code.size
  /-- The stack is sound. -/
  sound : now.stack.Sound
  /-- Some words have been taken off the stack. -/
  stack : machine.stack.toList = now.stack.toList ++ taken
  /-- If none has been taken, the stack has not been touched. -/
  untaken : taken = [] → now.stack = machine.stack

namespace Midway

variable {opcode : Opcode} {read : Nat} {taken : List Int32}

/-- A fault on the way leaves what belongs to it. -/
theorem leftBy (h : Midway machine opcode read taken now) {fault : Fault}
    (haftermath : Aftermath machine now fault) : LeftBy machine fault now :=
  { registers := h.registers
    code := h.code
    halted := h.halted
    sound := h.sound
    aftermath := haftermath }

/-- A machine stands behind all operands the program has when it has read as many as the
opcode asks for, or has come to the end of the program before. -/
theorem counted (h : Midway machine opcode read taken now) (hread : read ≤ opcode.operandCount)
    (hall : read = opcode.operandCount ∨ now.pc = machine.code.size)
    (hlive : opcode = .slt → machine.stack.toList ≠ []) : Counted machine opcode now := by
  have hpc := h.pc
  have hinside := h.inside
  refine ⟨h.fetch, h.steps, ?_⟩
  rw [if_neg fun hempty => hlive hempty.1 hempty.2]
  omega

/-- A comparison that finds no word has read no operand. -/
theorem counted_slt (h : Midway machine .slt 0 taken now) (hempty : machine.stack.toList = []) :
    Counted machine .slt now :=
  ⟨h.fetch, h.steps, by rw [if_pos ⟨rfl, hempty⟩, h.pc]⟩

/-- An operand is read, or the program ends before it. -/
theorem operand (opcode : Opcode) (hread : read < opcode.operandCount)
    (hcompared : opcode = .slt → taken.length = 1) (hkept : opcode ≠ .slt → taken = []) :
    Ensures (Midway machine opcode read taken) (Machine.operand machine.pc opcode)
      (fun _ => Midway machine opcode (read + 1) taken) (LeftBy machine) := by
  intro now h
  have hpc := h.pc
  have hinside := h.inside
  rw [run_operand]
  cases hword : now.code[now.pc]? with
  | none =>
    have hbeyond : now.code.size ≤ now.pc := Array.getElem?_eq_none_iff.mp hword
    rw [h.code] at hbeyond
    have hend : now.pc = machine.code.size := by omega
    have hlive : opcode = .slt → machine.stack.toList ≠ [] := by
      intro hslt hnil
      have hlength := congrArg List.length h.stack
      rw [hnil, List.length_append, hcompared hslt, List.length_nil] at hlength
      omega
    refine h.leftBy (.missingOperand (h.counted (by omega) (.inr hend) hlive) hend ?_ ?_)
    · intro hslt
      obtain ⟨top, htop⟩ := List.length_eq_one_iff.mp (hcompared hslt)
      exact ⟨top, by rw [h.stack, htop]⟩
    · intro hother
      exact h.untaken (hkept hother)
  | some word =>
    have hbelow : now.pc < now.code.size := (Array.getElem?_eq_some_iff.mp hword).1
    rw [h.code] at hbelow
    exact { h with pc := by rw [hpc]; rfl, inside := hbelow }

/-- A word is taken off the stack, or none is left. -/
theorem pop (opcode : Opcode) (hcount : opcode = .slt ∨ opcode.operandCount = 0)
    (hfew : taken.length ≤ 1) (hfirst : opcode = .slt → taken = []) :
    Ensures (Midway machine opcode 0 taken) (Machine.pop machine.pc opcode)
      (fun word => Midway machine opcode 0 (word :: taken)) (LeftBy machine) := by
  intro now h
  have hsound := h.sound
  rw [run_pop]
  rcases List.eq_nil_or_concat now.stack.toList with hnil | ⟨words, word, hlist⟩
  · have hstack : machine.stack.toList = taken := by rw [h.stack, hnil, List.nil_append]
    have hcounted : Counted machine opcode now := by
      by_cases hslt : opcode = .slt
      · subst hslt
        exact h.counted_slt (by rw [hstack, hfirst rfl])
      · have hnone : opcode.operandCount = 0 := hcount.resolve_left hslt
        exact h.counted (Nat.zero_le _) (.inl hnone.symm) fun heq => absurd heq hslt
    rw [hsound.pop_of_nil hnil]
    exact h.leftBy (.stackUnderflow hcounted (by rw [hstack]; exact hfew) hnil)
  · rw [List.concat_eq_append] at hlist
    obtain ⟨popped, hpop, hpopped, hrest⟩ := hsound.pop_of_snoc hlist
    have hstack : machine.stack.toList = popped.toList ++ word :: taken := by
      rw [h.stack, hlist, hrest, List.append_assoc, List.singleton_append]
    rw [hpop]
    exact { h with sound := hpopped, stack := hstack, untaken := fun hnone => nomatch hnone }

/-- Two words are taken off the stack. -/
theorem popPair (hother : opcode ≠ .slt) (hcount : opcode.operandCount = 0) :
    Ensures (Midway machine opcode 0 []) (Machine.popPair machine.pc opcode)
      (fun pair => Midway machine opcode 0 [pair.1, pair.2]) (LeftBy machine) := by
  refine (pop opcode (.inr hcount) (by simp) fun _ => rfl).bind fun second => ?_
  refine (pop opcode (.inr hcount) (by simp) fun heq => absurd heq hother).bind fun first => ?_
  exact Ensures.pure fun now h => h

/-- A dividend and a divisor are taken off the stack. -/
theorem popDivision (hdivides : opcode = .div ∨ opcode = .mod) :
    Ensures (Midway machine opcode 0 []) (Machine.popDivision machine.pc opcode)
      (fun pair => Midway machine opcode 0 [pair.1, pair.2]) (LeftBy machine) := by
  have hother : opcode ≠ .slt := by rcases hdivides with rfl | rfl <;> decide
  have hcount : opcode.operandCount = 0 := by rcases hdivides with rfl | rfl <;> rfl
  refine (popPair hother hcount).bind fun pair => ?_
  obtain ⟨dividend, divisor⟩ := pair
  dsimp only
  split
  · rename_i hzero
    subst hzero
    refine Ensures.throw fun now h => ?_
    have hcounted := h.counted (Nat.zero_le _) (.inl hcount.symm) fun heq => absurd heq hother
    exact h.leftBy (.divideByZero hdivides hcounted h.stack)
  · exact Ensures.pure fun now h => h

/-- A word is put on the stack. -/
theorem push (word : Int32) :
    Ensures (Midway machine opcode read taken) (Machine.push word)
      (fun _ now => now.stack.Sound) (LeftBy machine) :=
  Ensures.modify fun _ h => (h.sound.push word).1

/-- The result registers are filled. -/
theorem setResults (low high : Int32) :
    Ensures (Midway machine opcode read taken) (Machine.setResults low high)
      (fun _ now => now.stack.Sound) (LeftBy machine) :=
  Ensures.modify fun _ h => h.sound

/-- The machine goes to the address of a jump, or the address is negative. -/
theorem jump (hjumps : opcode = .j ∨ opcode = .jeq ∨ opcode = .jne) (target : Int32) :
    Ensures (Midway machine opcode opcode.operandCount []) (Machine.jump target)
      (fun _ now => now.stack.Sound) (LeftBy machine) := by
  have hother : opcode ≠ .slt := by rcases hjumps with rfl | rfl | rfl <;> decide
  intro now h
  rw [run_jump]
  by_cases hnegative : target < 0
  · have hcounted := h.counted (Nat.le_refl _) (.inl rfl) fun heq => absurd heq hother
    rw [if_pos hnegative, h.code]
    exact h.leftBy (.negativeJump hjumps hcounted hnegative (h.untaken rfl))
  · rw [if_neg hnegative]
    exact h.sound

/-- A conditional jump reads both operands, and faults behind them if there is no word to
compare. -/
theorem branch (hjumps : opcode = .jeq ∨ opcode = .jne) (onEqual : Bool) :
    Ensures (Midway machine opcode 0 []) (Machine.branch machine.pc opcode onEqual)
      (fun _ now => now.stack.Sound) (LeftBy machine) := by
  have hother : opcode ≠ .slt := by rcases hjumps with rfl | rfl <;> decide
  have hcount : opcode.operandCount = 2 := by rcases hjumps with rfl | rfl <;> rfl
  refine (operand opcode (by omega) (absurd · hother) fun _ => rfl).bind fun word => ?_
  refine (operand opcode (by omega) (absurd · hother) fun _ => rfl).bind fun target => ?_
  refine Ensures.get fun now h => ?_
  cases htop : now.stack.top? with
  | none =>
    rintro seen rfl
    have hnil : seen.stack.toList = [] := by
      rw [← List.getLast?_eq_none_iff, ← h.sound.top?_eq, htop]
    have hstack : machine.stack.toList = [] := by rw [h.stack, hnil, List.append_nil]
    have hcounted := h.counted (by omega) (.inl hcount.symm) fun heq => absurd heq hother
    exact h.leftBy (.stackUnderflow hcounted (by rw [hstack]; exact Nat.zero_le _) hnil)
  | some top =>
    dsimp only
    split
    · refine (jump (.inr hjumps) target).strengthen ?_
      rintro seen rfl
      rwa [hcount]
    · refine Ensures.pure ?_
      rintro seen rfl
      exact h.sound

/-- The word that was taken to be printed is written, or the output refuses it. -/
theorem write (word : Int32) :
    Ensures (Midway machine .print 0 [word])
      (Machine.write machine.pc (wordText word ++ "\n"))
      (fun _ now => now.stack.Sound) (LeftBy machine) := by
  intro now h
  have hsink := h.sink
  rw [run_write_text]
  match hwrite : Output.write now.sink (wordText word ++ "\n") with
  | (.ok _, sink) => exact h.sound
  | (.error refusal, sink) =>
    have hcounted := h.counted (Nat.zero_le _) (.inl rfl) fun heq => nomatch heq
    rw [hsink] at hwrite
    exact
      { registers := h.registers
        code := h.code
        halted := h.halted
        sound := h.sound
        aftermath := .refusedPrint ⟨hcounted.fetch, hcounted.steps, hcounted.pc⟩ h.stack hwrite }

/-- An instruction that faults leaves behind what belongs to its fault. -/
theorem execute (opcode : Opcode) :
    Ensures (Midway machine opcode 0 []) (Machine.execute machine.pc opcode)
      (fun _ now => now.stack.Sound) (LeftBy machine) := by
  have hrunning : Ensures (fun now : Machine ω => now.stack.Sound) (Pure.pure Progress.running)
      (fun _ now => now.stack.Sound) (LeftBy machine) := Ensures.pure fun _ h => h
  have hpush {opcode : Opcode} {read : Nat} {taken : List Int32} (word : Int32) :
      Ensures (Midway machine opcode read taken) (do Machine.push word; return Progress.running)
        (fun _ now => now.stack.Sound) (LeftBy machine) :=
    (push word).bind fun _ => hrunning
  have hset {opcode : Opcode} {taken : List Int32} (low high : Int32) :
      Ensures (Midway machine opcode 0 taken)
        (do Machine.setResults low high; return Progress.running)
        (fun _ now => now.stack.Sound) (LeftBy machine) :=
    (setResults low high).bind fun _ => hrunning
  cases opcode with
  | halt =>
    have hhalt : Ensures (Midway machine .halt 0 [])
        (modify fun now : Machine ω => { now with halted := true })
        (fun _ now => now.stack.Sound) (LeftBy machine) := Ensures.modify fun _ h => h.sound
    exact hhalt.bind fun _ => Ensures.pure fun _ h => h
  | nop => exact Ensures.pure fun _ h => h.sound
  | push =>
    refine (operand .push (by decide) (absurd · (by decide)) fun _ => rfl).bind fun word => ?_
    exact hpush word
  | pop =>
    refine (pop .pop (.inr rfl) (by simp) (absurd · (by decide))).bind fun _ => ?_
    exact Ensures.pure fun _ h => h.sound
  | add => exact (popPair (by decide) rfl).bind fun _ => hpush _
  | mul => exact (popPair (by decide) rfl).bind fun _ => hset _ _
  | div => exact (popDivision (.inl rfl)).bind fun _ => hset _ _
  | mod => exact (popDivision (.inr rfl)).bind fun _ => hpush _
  | print =>
    refine (pop .print (.inr rfl) (by simp) (absurd · (by decide))).bind fun word => ?_
    exact (write word).bind fun _ => hrunning
  | jeq => exact (branch (.inl rfl) true).bind fun _ => hrunning
  | jne => exact (branch (.inr rfl) false).bind fun _ => hrunning
  | j =>
    refine (operand .j (by decide) (absurd · (by decide)) fun _ => rfl).bind fun target => ?_
    exact (jump (.inl rfl) target).bind fun _ => hrunning
  | slt =>
    refine (pop .slt (.inl rfl) (by simp) fun _ => rfl).bind fun compared => ?_
    refine (operand .slt (by decide) (fun _ => rfl) (absurd rfl ·)).bind fun bound => ?_
    exact hpush _
  | sll => exact (popPair (by decide) rfl).bind fun _ => hpush _
  | srl => exact (popPair (by decide) rfl).bind fun _ => hpush _

end Midway

/-- The line of the trace is written, or the output refuses it and nothing else has
happened. -/
theorem ensures_trace (hsound : machine.stack.Sound) (hrunning : machine.halted = false)
    {word : Int32} (hfetch : machine.code[machine.pc]? = some word) {name : String}
    {operandCount : Nat}
    (hline : machine.announcement word = machine.traceLine machine.pc name operandCount) :
    Ensures (fun now => now = machine) (trace machine.pc name operandCount)
      (fun _ now => now = machine.announce) (LeftBy machine) := by
  rintro now rfl
  have hannounced := announced_of_fetch hrunning hfetch
  cases htracing : now.tracing with
  | false =>
    have hsilent : now.announce = now := by
      rw [announce, if_neg (Bool.eq_false_iff.mp htracing)]
      rfl
    rw [run_trace_silent htracing]
    exact hsilent.symm
  | true =>
    rw [run_trace_traced htracing, run_write_text, ← hline, announce, htracing, hannounced]
    match hwrite : Output.write now.sink (now.announcement word) with
    | (.ok _, sink) =>
      have hsink : Output.writeAll now.sink [now.announcement word] = sink :=
        congrArg Prod.snd hwrite
      rw [if_pos rfl, hsink]
    | (.error refusal, sink) =>
      exact
        { registers := rfl
          code := rfl
          halted := rfl
          sound := hsound
          aftermath := .refusedLine htracing hfetch hwrite ⟨rfl, rfl, rfl⟩ }

/-- A step that faults leaves behind what belongs to its fault, and a step without a fault
keeps the stack sound. -/
theorem ensures_stepping (hsound : machine.stack.Sound) :
    Ensures (fun now => now = machine) stepping (fun _ now => now.stack.Sound)
      (LeftBy machine) := by
  refine Ensures.get ?_
  rintro now rfl
  split
  · refine Ensures.pure ?_
    rintro seen rfl
    exact hsound
  · rename_i hrunning
    have hrunning : now.halted = false := eq_false_of_ne_true hrunning
    cases hfetch : now.code[now.pc]? with
    | none =>
      have haddress : now.code.size ≤ now.pc := Array.getElem?_eq_none_iff.mp hfetch
      refine Ensures.throw ?_
      rintro seen rfl
      exact ⟨rfl, rfl, rfl, hsound, .outside haddress ⟨rfl, rfl, rfl⟩⟩
    | some word =>
      dsimp only
      cases hword : Opcode.ofWord? word with
      | none =>
        have hline : now.announcement word =
            now.traceLine now.pc (".word " ++ wordText word) 0 := by
          rw [announcement, hword]
        refine (ensures_trace hsound hrunning hfetch hline).bind fun _ => ?_
        refine Ensures.throw ?_
        rintro seen rfl
        exact ⟨rfl, rfl, rfl, hsound, .unknownOpcode hfetch hword ⟨rfl, rfl, rfl⟩⟩
      | some opcode =>
        have hline : now.announcement word =
            now.traceLine now.pc opcode.name opcode.operandCount := by
          rw [announcement, hword]
        have hopcode : opcode.word = word := Opcode.word_of_ofWord? hword
        have hinside : now.pc < now.code.size := (Array.getElem?_eq_some_iff.mp hfetch).1
        refine (ensures_trace hsound hrunning hfetch hline).bind fun _ => ?_
        refine Ensures.bind (Ensures.modify ?_) fun _ => Midway.execute opcode
        rintro seen rfl
        exact
          { fetch := by rw [hfetch, hopcode]
            registers := rfl
            code := rfl
            halted := rfl
            steps := rfl
            sink := rfl
            pc := rfl
            inside := hinside
            sound := hsound
            stack := (List.append_nil _).symm
            untaken := fun _ => rfl }

/-- After any number of calls of a step the stack is sound. -/
theorem sound_afterCalls (hsound : machine.stack.Sound) (count : Nat) :
    (machine.afterCalls count).stack.Sound := by
  induction count with
  | zero => exact hsound
  | succ count ih =>
    obtain ⟨hok, hfault⟩ := (ensures_stepping ih).outcome rfl
    cases hstep : ((stepping (ω := ω)).run.run (machine.afterCalls count)).1 with
    | ok progress => exact hok progress hstep
    | error fault => exact (hfault fault hstep).sound

/-- Whatever is left of the stack was at its bottom. -/
theorem Aftermath.stack_prefix {fault : Fault} (h : Aftermath machine after fault) :
    after.stack.toList <+: machine.stack.toList := by
  have hkept (hstack : after.stack = machine.stack) :
      after.stack.toList <+: machine.stack.toList :=
    hstack ▸ List.prefix_rfl
  cases h with
  | outside _ untouched => exact hkept untouched.stack
  | refusedLine _ _ _ untouched => exact hkept untouched.stack
  | unknownOpcode _ _ untouched => exact hkept untouched.stack
  | @missingOperand opcode _ _ compared kept =>
    by_cases hslt : opcode = .slt
    · obtain ⟨top, htop⟩ := compared hslt
      exact ⟨[top], htop.symm⟩
    · exact hkept (kept hslt)
  | stackUnderflow _ _ empty => exact empty ▸ List.nil_prefix
  | divideByZero _ _ stack => exact ⟨_, stack.symm⟩
  | refusedPrint _ stack _ => exact ⟨_, stack.symm⟩
  | negativeJump _ _ _ stack => exact hkept stack

/-- The address of a fault is that of the machine, which is in the program. -/
theorem Aftermath.pc?_eq {fault : Fault} (h : Aftermath machine after fault) {address : Nat}
    (haddress : fault.pc? = some address) :
    address = machine.pc ∧ address < machine.code.size := by
  have hinside {word : Int32} (hfetch : machine.code[machine.pc]? = some word) :
      machine.pc < machine.code.size :=
    (Array.getElem?_eq_some_iff.mp hfetch).1
  cases h with
  | outside => cases haddress
  | negativeJump => cases haddress
  | refusedLine _ fetch => cases haddress; exact ⟨rfl, hinside fetch⟩
  | unknownOpcode fetch => cases haddress; exact ⟨rfl, hinside fetch⟩
  | missingOperand counted => cases haddress; exact ⟨rfl, hinside counted.fetch⟩
  | stackUnderflow counted => cases haddress; exact ⟨rfl, hinside counted.fetch⟩
  | divideByZero _ counted => cases haddress; exact ⟨rfl, hinside counted.fetch⟩
  | refusedPrint counted => cases haddress; exact ⟨rfl, hinside counted.fetch⟩

/-- A machine is reported to be outside its program with an address that is. -/
theorem Aftermath.outside_range {target : Int} {length : Nat}
    (h : Aftermath machine after (.outside target length)) :
    length = machine.code.size ∧ (target < 0 ∨ (length : Int) ≤ target) := by
  cases h with
  | outside address => exact ⟨rfl, .inr (by omega)⟩
  | negativeJump _ _ negative => exact ⟨rfl, .inl (Int32.lt_iff_toInt_lt.mp negative)⟩

end Machine

/-- What a fault leaves behind, after any number of calls of a step, faulted ones included,
for every program and output. Registers, program and the flag that says whether the machine
has halted are as before, and what is live on the stack was at its bottom. Address, count of
steps and stack are as the kind of the fault tells. A fault that names an address names that
of the machine, which is in the program; a machine is reported to be outside with an address
that is outside. -/
theorem fault_leaves_behind {ω : Type} [Output ω] (code : Array Int32) (tracing : Bool) (sink : ω)
    (count : Nat) {fault : Fault}
    (h : ((Machine.start code tracing sink).afterCalls count).step.1 = .error fault) :
    let machine := (Machine.start code tracing sink).afterCalls count
    let after := machine.step.2
    (after.registers = machine.registers ∧ after.code = machine.code ∧
      after.halted = machine.halted ∧ after.stack.toList <+: machine.stack.toList) ∧
      Machine.Aftermath machine after fault ∧
      (∀ address, fault.pc? = some address →
        address = machine.pc ∧ address < machine.code.size) ∧
      ∀ target length, fault = .outside target length →
        length = machine.code.size ∧ (target < 0 ∨ (length : Int) ≤ target) := by
  intro machine after
  have hsound : machine.stack.Sound := Machine.sound_afterCalls Stack.sound_empty count
  have hleft : Machine.LeftBy machine fault after :=
    ((Machine.ensures_stepping hsound).outcome rfl).2 fault h
  have haftermath := hleft.aftermath
  refine ⟨⟨hleft.registers, hleft.code, hleft.halted, haftermath.stack_prefix⟩, haftermath,
    fun address => haftermath.pc?_eq, ?_⟩
  rintro target length rfl
  exact haftermath.outside_range

/-- An instruction that takes a word, and a comparison, on an empty stack. -/
def emptyComparison : Array Int32 := #[3, 12, 7]

/-- Behind the fault of the first instruction the comparison is carried out as well, and it
finds no word before it has read its operand. -/
theorem fault_leaves_behind_emptyComparison :
    let machine := (Machine.start emptyComparison true ({} : Sink)).afterCalls 1
    machine.step.1 = .error (.stackUnderflow 1 .slt) ∧ machine.pc = 1 ∧
      Machine.Aftermath machine machine.step.2 (.stackUnderflow 1 .slt) ∧
      machine.step.2.pc = 2 := by
  intro machine
  have hfault : machine.step.1 = .error (.stackUnderflow 1 .slt) := rfl
  have hplace : machine.pc = 1 := rfl
  have hleft : machine.step.2.pc = 2 := rfl
  obtain ⟨-, haftermath, -⟩ := fault_leaves_behind emptyComparison true ({} : Sink) 1 hfault
  exact ⟨hfault, hplace, haftermath, hleft⟩

end LanguageKit
