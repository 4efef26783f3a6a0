import LanguageKit.Proofs.ListingLines
import LanguageKit.Proofs.Relocation

/-!
# A machine goes through a listing line by line

The words of a program are decoded three times: by a step, which reads operands one by one,
by the line that tracing writes for the step, and by a listing of the program. They agree on
where instructions begin and end, whatever the words are, as long as jumps go to addresses
where lines of the listing start.
-/

namespace LanguageKit

open Text Listing

/-- The address that an instruction with its operands jumps to above a stack with this word
on top, if it jumps. -/
def Opcode.destination? (opcode : Opcode) (operands : List Int32) (top? : Option Int32) :
    Option Int32 :=
  match opcode, operands, top? with
  | .j, [target], _ => some target
  | .jeq, [compared, target], some top => if top = compared then some target else none
  | .jne, [compared, target], some top => if top = compared then none else some target
  | _, _, _ => none

/-- An instruction without operands does not jump. -/
theorem Opcode.destination?_of_operandless {opcode : Opcode} (h : opcode.operandCount = 0)
    (operands : List Int32) (top? : Option Int32) : opcode.destination? operands top? = none := by
  cases opcode <;> first | rfl | contradiction

/-- The line of a trace for a line of a listing and a stack. -/
def Listing.Line.traceText (line : Line) (stack : List Int32) : String :=
  addressText line.address ++ ": " ++ line.head.text ++ " " ++ fullForm line.operands ++ " \t" ++
    fullForm stack ++ "\n"

namespace Machine

variable {ω α : Type} {machine : Machine ω} {operands : List Int32} (pc : Nat) (opcode : Opcode)

/-- The address that the next step jumps to, if it jumps. -/
def jumpTarget? (machine : Machine ω) : Option Int32 :=
  if machine.halted then none
  else
    (machine.code[machine.pc]?.bind Opcode.ofWord?).bind fun opcode =>
      opcode.destination? ((machine.code.toList.drop (machine.pc + 1)).take opcode.operandCount)
        machine.stack.top?

/-- An instruction has left the program alone, and the machine stands at the address it
jumped to, or at another one if it did not jump. -/
structure Lands (code : Array Int32) (address : Nat) (target? : Option Int32)
    (machine : Machine ω) : Prop where
  /-- The program is the same. -/
  code : machine.code = code
  /-- The machine stands at the address of the jump, or at the other one. -/
  pc : (machine.pc : Int) = target?.elim (address : Int) Int32.toInt

/-- An operand is missing at the end of the program. -/
theorem run_operand_missing (machine : Machine ω) (h : machine.code.toList.drop machine.pc = [])
    (next : Int32 → Exec ω α) :
    (operand pc opcode >>= next).run.run machine =
      (.error (.missingOperand pc opcode), machine) := by
  have hfetch : machine.code[machine.pc]? = none := by
    rw [← Array.getElem?_toList, ← List.head?_drop, h, List.head?_nil]
  rw [run_bind, run_operand, hfetch]

/-- An instruction whose last part brings no answer lands where that part does. -/
theorem lands_part {part : Exec ω Unit} {code : Array Int32} {address : Nat}
    {target? : Option Int32}
    (h : (part.run.run machine).1 = .ok () → Lands code address target? (part.run.run machine).2)
    {progress : Progress}
    (hok : ((do part; return Progress.running : Exec ω Progress).run.run machine).1 =
      .ok progress) :
    Lands code address target?
      ((do part; return Progress.running : Exec ω Progress).run.run machine).2 := by
  rw [run_bind] at hok ⊢
  generalize part.run.run machine = ran at h hok ⊢
  obtain ⟨_ | _, next⟩ := ran
  · contradiction
  · exact h rfl

/-- A jump that brings no fault lands at its address. -/
theorem lands_jump (machine : Machine ω) {target : Int32}
    (hok : ((jump target).run.run machine).1 = .ok ()) (address : Nat) :
    Lands machine.code address (some target) ((jump target).run.run machine).2 := by
  rw [run_jump] at hok ⊢
  by_cases hnegative : target < 0
  · rw [if_pos hnegative] at hok
    contradiction
  · have hsign : ¬ target.toInt < 0 := fun hbelow => hnegative (Int32.lt_iff_toInt_lt.mpr hbelow)
    have haddress : (target.toInt.toNat : Int) = target.toInt := by omega
    rw [if_neg hnegative]
    exact ⟨rfl, haddress⟩

/-- A conditional jump reads both operands before it looks at the stack. -/
theorem run_branch {compared target : Int32} (hahead : machine.Ahead [compared, target])
    (onEqual : Bool) :
    (branch pc opcode onEqual).run.run machine =
      match machine.stack.top? with
      | none => (.error (.stackUnderflow pc opcode), { machine with pc := machine.pc + 1 + 1 })
      | some top =>
        if (top == compared) == onEqual then
          (jump target).run.run { machine with pc := machine.pc + 1 + 1 }
        else (.ok (), { machine with pc := machine.pc + 1 + 1 }) := by
  have hread : (branch pc opcode onEqual).run.run machine = _ :=
    (hahead.run_operand_bind pc opcode _).trans (hahead.fetch.2.run_operand_bind pc opcode _)
  rw [hread, run_get_bind]
  dsimp only
  cases machine.stack.top? with
  | none => rfl
  | some top =>
    dsimp only
    split <;> rfl

/-- A conditional jump that brings no fault lands at its address if its condition holds, and
behind its operands otherwise. -/
theorem lands_branch {onEqual : Bool} (hjumps : opcode = if onEqual then .jeq else .jne)
    (hcount : operands.length = 2) (hahead : machine.Ahead operands)
    (hok : ((branch pc opcode onEqual).run.run machine).1 = .ok ()) :
    Lands machine.code (machine.pc + operands.length)
      (opcode.destination? operands machine.stack.top?)
      ((branch pc opcode onEqual).run.run machine).2 := by
  obtain ⟨compared, target, rfl⟩ := List.length_eq_two.mp hcount
  rw [run_branch pc opcode hahead] at hok ⊢
  cases htop : machine.stack.top? with
  | none =>
    rw [htop] at hok
    contradiction
  | some top =>
    rw [htop] at hok
    dsimp only at hok ⊢
    have hdestination : opcode.destination? [compared, target] (some top) =
        if (top == compared) == onEqual then some target else none := by
      cases onEqual <;> by_cases hequal : top = compared <;>
        simp [hjumps, Opcode.destination?, hequal]
    rw [hdestination]
    by_cases htaken : ((top == compared) == onEqual) = true
    · rw [if_pos htaken] at hok ⊢
      rw [if_pos htaken]
      exact lands_jump { machine with pc := machine.pc + 1 + 1 } hok _
    · rw [if_neg htaken, if_neg htaken]
      exact ⟨rfl, rfl⟩

/-- A conditional jump whose operands are cut off by the end of the program faults. -/
theorem branch_missing (hcount : operands.length < 2)
    (hend : machine.code.toList.drop machine.pc = operands) (onEqual : Bool) :
    ∃ fault, ((do branch pc opcode onEqual; return Progress.running : Exec ω Progress).run.run
      machine).1 = .error fault := by
  match operands, hcount with
  | [], _ =>
    have hrun : (branch pc opcode onEqual).run.run machine = _ :=
      run_operand_missing pc opcode machine hend _
    rw [run_bind, hrun]
    exact ⟨_, rfl⟩
  | [compared], _ =>
    have hahead : machine.Ahead [compared] := ⟨[], hend.symm⟩
    have hbehind : machine.code.toList.drop (machine.pc + 1) = [] := by
      rw [← List.drop_drop, hend]
      rfl
    have hrun : (branch pc opcode onEqual).run.run machine = _ :=
      (hahead.run_operand_bind pc opcode _).trans
        (run_operand_missing pc opcode { machine with pc := machine.pc + 1 } hbehind _)
    rw [run_bind, hrun]
    exact ⟨_, rfl⟩

/-- A machine stands at a line of its program: the words of the line are ahead of it, and the
rest of the program behind them. -/
structure StandsAt (machine : Machine ω) (line : Line) (rest : List Int32) : Prop where
  /-- The line has the address of the machine. -/
  address : line.address = machine.pc
  /-- The words of the line are ahead. -/
  words : machine.code.toList.drop machine.pc = line.words ++ rest
  /-- The line lacks operands only if nothing is behind it. -/
  decodes : line.Decodes rest

variable {line : Line} {rest : List Int32}

/-- A machine at the address of a line stands at the line. -/
theorem exists_standsAt {before after : List Line}
    (hlisting : ofProgram machine.code.toList = before ++ line :: after)
    (haddress : line.address = machine.pc) : ∃ rest, StandsAt machine line rest := by
  obtain ⟨front, rest, hprogram, hfront, -, hdecodes⟩ := ofProgram_eq_append hlisting
  refine ⟨rest, haddress, ?_, hdecodes⟩
  rw [hprogram, ← haddress, hfront, List.drop_left]

/-- The words of the line are ahead. -/
theorem StandsAt.ahead (h : StandsAt machine line rest) :
    machine.Ahead (line.head.word :: line.operands) :=
  ⟨rest, h.words.symm⟩

/-- Behind the first word of the line are its operands. -/
theorem StandsAt.drop_eq (h : StandsAt machine line rest) :
    machine.code.toList.drop (machine.pc + 1) = line.operands ++ rest := by
  rw [← List.drop_drop, h.words]
  rfl

/-- Tracing and another output do not change the line. -/
theorem StandsAt.redirect (h : StandsAt machine line rest) (tracing : Bool) (sink : ω) :
    StandsAt (machine.redirect tracing sink) line rest :=
  ⟨h.address, h.words, h.decodes⟩

/-- A word that is no opcode has no operands. -/
theorem StandsAt.data_eq (h : StandsAt machine line rest) {word : Int32}
    (hhead : line.head = .data word) : Opcode.ofWord? word = none ∧ line.operands = [] := by
  have hdecodes := h.decodes
  rw [Line.Decodes, hhead] at hdecodes
  exact hdecodes

/-- An opcode has all its operands, or the end of the program cuts them off. -/
theorem StandsAt.complete_or_missing (h : StandsAt machine line rest)
    (hhead : line.head = .opcode opcode) :
    line.operands.length = opcode.operandCount ∨
      line.operands.length < opcode.operandCount ∧ rest = [] := by
  have hdecodes := h.decodes
  rw [Line.Decodes, hhead] at hdecodes
  exact hdecodes

/-- The operands of the line are what tracing takes for them. -/
theorem StandsAt.operands_eq (h : StandsAt machine line rest) (hhead : line.head = .opcode opcode) :
    (machine.code.toList.drop (machine.pc + 1)).take opcode.operandCount = line.operands := by
  rw [h.drop_eq]
  obtain hcomplete | ⟨hmissing, rfl⟩ := h.complete_or_missing opcode hhead
  · rw [← hcomplete, List.take_left]
  · rw [List.append_nil, List.take_of_length_le (Nat.le_of_lt hmissing)]

/-- The line of the trace shows what the line of the listing shows. -/
theorem StandsAt.announcement_eq (h : StandsAt machine line rest) :
    machine.announcement line.head.word = line.traceText machine.stack.toList := by
  unfold announcement
  cases hhead : line.head with
  | data word =>
    have hdata := h.data_eq hhead
    rw [Head.word, hdata.1, Line.traceText, hhead, hdata.2, h.address]
    rfl
  | opcode opcode =>
    rw [Head.word, Opcode.ofWord?_word, Line.traceText, hhead, h.address,
      ← h.operands_eq opcode hhead]
    rfl

/-- A jump of the next step is one of the line. -/
theorem StandsAt.jumpTarget?_eq (h : StandsAt machine line rest) (hrunning : machine.halted = false)
    (hhead : line.head = .opcode opcode) :
    machine.jumpTarget? = opcode.destination? line.operands machine.stack.top? := by
  have hfetch := h.ahead.fetch.1
  rw [hhead, Head.word] at hfetch
  rw [jumpTarget?, if_neg (by rw [hrunning]; exact Bool.false_ne_true), hfetch, Option.bind_some,
    Opcode.ofWord?_word, Option.bind_some, h.operands_eq opcode hhead]

variable [Output ω]

/-- An instruction that brings no fault lands at the address it jumps to, or behind its
operands. -/
theorem lands_execute (machine : Machine ω) (hcount : operands.length = opcode.operandCount)
    (hahead : machine.Ahead operands) {progress : Progress}
    (hok : ((execute pc opcode).run.run machine).1 = .ok progress) :
    Lands machine.code (machine.pc + operands.length)
      (opcode.destination? operands machine.stack.top?)
      ((execute pc opcode).run.run machine).2 := by
  by_cases hnone : opcode.operandCount = 0
  · have hat : At machine.code machine.pc ((execute pc opcode).run.run machine).2 :=
      ((stays_execute hnone).outcome ⟨rfl, rfl⟩).1 progress hok
    rw [Opcode.destination?_of_operandless hnone, hcount, hnone]
    exact ⟨hat.code, congrArg Nat.cast hat.pc⟩
  cases opcode with
  | push =>
    obtain ⟨word, rfl⟩ := List.length_eq_one_iff.mp hcount
    have hrun : (execute pc .push).run.run machine = _ := hahead.run_operand_bind pc .push _
    rw [hrun]
    exact ⟨rfl, rfl⟩
  | slt =>
    obtain ⟨bound, rfl⟩ := List.length_eq_one_iff.mp hcount
    rw [execute_slt, run_bind, run_pop] at hok ⊢
    generalize machine.stack.pop = popped at hok ⊢
    obtain ⟨_ | compared, stack⟩ := popped
    · contradiction
    · have hahead : Ahead { machine with stack } [bound] := hahead
      dsimp only
      rw [hahead.run_operand_bind]
      exact ⟨rfl, rfl⟩
  | j =>
    obtain ⟨target, rfl⟩ := List.length_eq_one_iff.mp hcount
    have hrun : (execute pc .j).run.run machine = _ := hahead.run_operand_bind pc .j _
    rw [hrun] at hok ⊢
    exact lands_part (fun hjump => lands_jump _ hjump _) hok
  | jeq => exact lands_part (lands_branch pc .jeq rfl hcount hahead) hok
  | jne => exact lands_part (lands_branch pc .jne rfl hcount hahead) hok
  | _ => contradiction

/-- An instruction whose operands are cut off by the end of the program faults. -/
theorem execute_missing (machine : Machine ω) (hcount : operands.length < opcode.operandCount)
    (hend : machine.code.toList.drop machine.pc = operands) :
    ∃ fault, ((execute pc opcode).run.run machine).1 = .error fault := by
  have hnone (hone : operands.length < 1) : machine.code.toList.drop machine.pc = [] := by
    rw [hend]
    exact List.length_eq_zero_iff.mp (Nat.lt_one_iff.mp hone)
  cases opcode with
  | push =>
    have hrun : (execute pc .push).run.run machine = _ :=
      run_operand_missing pc .push machine (hnone hcount) _
    exact ⟨_, by rw [hrun]⟩
  | slt =>
    rw [execute_slt, run_bind, run_pop]
    obtain ⟨_ | compared, stack⟩ := machine.stack.pop
    · exact ⟨_, rfl⟩
    · dsimp only
      rw [run_operand_missing pc .slt { machine with stack } (hnone hcount)]
      exact ⟨_, rfl⟩
  | j =>
    have hrun : (execute pc .j).run.run machine = _ :=
      run_operand_missing pc .j machine (hnone hcount) _
    exact ⟨_, by rw [hrun]⟩
  | jeq => exact branch_missing pc .jeq hcount hend true
  | jne => exact branch_missing pc .jne hcount hend false
  | _ => exact absurd hcount (Nat.not_lt_zero _)

/-- A step that traces writes the line. -/
theorem StandsAt.step_traced (h : StandsAt machine line rest) (hrunning : machine.halted = false)
    (htracing : machine.tracing = true) :
    machine.step = machine.behindLine (line.traceText machine.stack.toList) := by
  rw [← h.announcement_eq]
  exact Machine.step_traced htracing hrunning h.ahead.fetch.1

/-- In silence, a step at a word that is no opcode faults. -/
theorem StandsAt.step_silent_unknown (h : StandsAt machine line rest)
    (hrunning : machine.halted = false) (hsilent : machine.tracing = false) {word : Int32}
    (hhead : line.head = .data word) :
    machine.step.1 = .error (.unknownOpcode line.address word) := by
  have hfetch := h.ahead.fetch.1
  rw [hhead, Head.word] at hfetch
  rw [Machine.step_silent_unknown machine hsilent hrunning hfetch (h.data_eq hhead).1, h.address]

/-- In silence, a step at a line that lacks operands faults. -/
theorem StandsAt.step_silent_missing (h : StandsAt machine line rest)
    (hrunning : machine.halted = false) (hsilent : machine.tracing = false)
    (hhead : line.head = .opcode opcode) (hmissing : line.operands.length < opcode.operandCount) :
    ∃ fault, machine.step.1 = .error fault := by
  have hfetch := h.ahead.fetch.1
  rw [hhead, Head.word] at hfetch
  have hend : machine.code.toList.drop (machine.pc + 1) = line.operands := by
    obtain hcomplete | ⟨-, hnone⟩ := h.complete_or_missing opcode hhead
    · omega
    · rw [h.drop_eq, hnone, List.append_nil]
  rw [step_silent_opcode machine hsilent hrunning hfetch (Opcode.ofWord?_word opcode)]
  exact execute_missing machine.pc opcode machine.behindOpcode hmissing hend

/-- A step at a word that is no opcode faults, if not already at its line of the trace. -/
theorem StandsAt.step_unknown (h : StandsAt machine line rest) (hrunning : machine.halted = false)
    {word : Int32} (hhead : line.head = .data word) :
    machine.step.1 = .error (.unknownOpcode line.address word) ∨
      machine.tracing = true ∧ ∃ refusal,
        (Output.write machine.sink (line.traceText machine.stack.toList)).1 = .error refusal ∧
          machine.step.1 = .error (.refusedOutput line.address refusal) := by
  cases htracing : machine.tracing with
  | false => exact .inl (h.step_silent_unknown hrunning htracing hhead)
  | true =>
    rw [h.step_traced hrunning htracing]
    match hwrite : Output.write machine.sink (line.traceText machine.stack.toList) with
    | (.error refusal, sink) =>
      rw [behindLine_refused machine hwrite, h.address]
      exact .inr ⟨rfl, refusal, rfl, rfl⟩
    | (.ok _, sink) =>
      rw [behindLine_taken machine hwrite]
      exact .inl ((h.redirect false sink).step_silent_unknown hrunning rfl hhead)

/-- Where a step brings no fault, the line has an opcode with all its operands, and the step
has done in silence what the opcode asks for. -/
theorem StandsAt.exists_execute (h : StandsAt machine line rest)
    (hrunning : machine.halted = false) {progress : Progress}
    (hok : machine.step.1 = .ok progress) :
    ∃ opcode sink, line.head = .opcode opcode ∧ line.operands.length = opcode.operandCount ∧
      let executed := (execute machine.pc opcode).run.run (machine.redirect false sink).behindOpcode
      executed.1 = .ok progress ∧
        machine.step.2 = { executed.2 with tracing := machine.tracing } := by
  have hfetch := h.ahead.fetch.1
  obtain ⟨sink, hsilent⟩ := exists_silent_of_ok hrunning hfetch hok
  have hstands := h.redirect false sink
  -- In silence all other lines fault, so their steps are not without a fault either.
  rw [hsilent] at hok
  dsimp only at hok
  cases hhead : line.head with
  | data word =>
    rw [hstands.step_silent_unknown hrunning rfl hhead] at hok
    contradiction
  | opcode opcode =>
    obtain hcomplete | ⟨hmissing, -⟩ := h.complete_or_missing opcode hhead
    · rw [hhead, Head.word] at hfetch
      have hstep := step_silent_opcode (machine.redirect false sink) rfl hrunning hfetch
        (Opcode.ofWord?_word opcode)
      rw [hstep] at hok
      refine ⟨opcode, sink, rfl, hcomplete, hok, ?_⟩
      rw [hsilent, hstep]
      rfl
    · obtain ⟨fault, hfault⟩ := hstands.step_silent_missing opcode hrunning rfl hhead hmissing
      rw [hfault] at hok
      contradiction

/-- A step that brings no fault lands at the address it jumps to, or behind the line. -/
theorem StandsAt.lands (h : StandsAt machine line rest) (hrunning : machine.halted = false)
    {progress : Progress} (hok : machine.step.1 = .ok progress) :
    Lands machine.code (machine.pc + line.words.length) machine.jumpTarget? machine.step.2 := by
  obtain ⟨opcode, sink, hhead, hcount, hexecuted, hnext⟩ := h.exists_execute hrunning hok
  have hlands := lands_execute machine.pc opcode (machine.redirect false sink).behindOpcode hcount
    h.ahead.fetch.2 hexecuted
  have hbehind : machine.pc + line.words.length = machine.pc + 1 + line.operands.length := by
    rw [Line.words, List.length_cons]
    omega
  rw [hnext, hbehind, h.jumpTarget?_eq opcode hrunning hhead]
  exact ⟨hlands.code, hlands.pc⟩

/-- In silence, a step at a line with all its operands does the same in every program as long
that has the words of the line at the same address. -/
theorem StandsAt.step_silent_program (h : StandsAt machine line rest)
    (hrunning : machine.halted = false) (hsilent : machine.tracing = false)
    (hhead : line.head = .opcode opcode) (hcount : line.operands.length = opcode.operandCount)
    {code : Array Int32} (hsize : code.size = machine.code.size) {behind : List Int32}
    (hwords : code.toList.drop machine.pc = line.words ++ behind) :
    { machine with code }.step = (machine.step.1, { machine.step.2 with code }) := by
  have hahead := h.ahead
  have hmoved : (machine.relocate code 0).Ahead
      (opcode.word :: opcode.moveOperands 0 line.operands) := by
    refine ⟨behind, ?_⟩
    rw [Opcode.moveOperands_zero]
    rw [Line.words, hhead] at hwords
    exact hwords.symm
  rw [hhead] at hahead
  have hstep := step_relocate opcode hsilent hrunning hcount hahead hmoved hsize
    fun _ target _ => movesBy_zero target
  rw [relocateOutcome_zero] at hstep
  exact hstep

/-- A step at a line with all its operands does the same in every program as long that has
the words of the line at the same address. -/
theorem StandsAt.step_program (h : StandsAt machine line rest) (hrunning : machine.halted = false)
    (hhead : line.head = .opcode opcode) (hcount : line.operands.length = opcode.operandCount)
    {code : Array Int32} (hsize : code.size = machine.code.size) {behind : List Int32}
    (hwords : code.toList.drop machine.pc = line.words ++ behind) :
    { machine with code }.step = (machine.step.1, { machine.step.2 with code }) := by
  by_cases htracing : machine.tracing = true
  · have hdecodes : line.Decodes behind := by
      rw [Line.Decodes, hhead]
      exact .inl hcount
    have hother : StandsAt { machine with code } line behind := ⟨h.address, hwords, hdecodes⟩
    rw [h.step_traced hrunning htracing, hother.step_traced hrunning htracing]
    match hwrite : Output.write machine.sink (line.traceText machine.stack.toList) with
    | (.error refusal, sink) =>
      rw [behindLine_refused machine hwrite, behindLine_refused { machine with code } hwrite]
    | (.ok _, sink) =>
      have hsilent := (h.redirect false sink).step_silent_program opcode hrunning rfl hhead hcount
        hsize hwords
      rw [behindLine_taken machine hwrite, behindLine_taken { machine with code } hwrite]
      have hstart : { machine with code }.redirect false sink =
          { machine.redirect false sink with code } := rfl
      rw [hstart, hsilent]
  · have hsilent : machine.tracing = false := eq_false_of_ne_true htracing
    exact h.step_silent_program opcode hrunning hsilent hhead hcount hsize hwords

/-- The next step of a machine that stands at a line of its program, with other lines behind,
decodes the words of that line as the listing does. -/
structure FollowsLine (machine : Machine ω) (line : Line) (after : List Line) : Prop where
  /-- Without a fault and without a jump, the machine goes on at the next line, or at the end
  of the program, and passes the words of the line. -/
  next : ∀ progress, machine.step.1 = .ok progress → machine.jumpTarget? = none →
    machine.step.2.pc = startOf after machine.code.size ∧
      (machine.code.toList.drop machine.pc).take (machine.step.2.pc - machine.pc) = line.words
  /-- Without a fault, a jump leads to its address. -/
  jump : ∀ progress target, machine.step.1 = .ok progress → machine.jumpTarget? = some target →
    (machine.step.2.pc : Int) = target.toInt
  /-- A step without a fault reads no other words: it does the same in every program as long
  that has the words of the line at the same address. -/
  reads : ∀ progress, machine.step.1 = .ok progress → ∀ code : Array Int32,
    code.size = machine.code.size → line.words <+: code.toList.drop machine.pc →
      { machine with code }.step = (machine.step.1, { machine.step.2 with code })
  /-- A machine that traces writes the address, the name and the operands of the line, and
  only then goes on. -/
  traced : machine.tracing = true →
    machine.step = machine.behindLine (line.traceText machine.stack.toList)
  /-- A word that is no opcode brings the fault of such a word, unless the output refuses the
  line of the trace. -/
  unknown : ∀ word, line.head = .data word →
    machine.step.1 = .error (.unknownOpcode line.address word) ∨
      machine.tracing = true ∧ ∃ refusal,
        (Output.write machine.sink (line.traceText machine.stack.toList)).1 = .error refusal ∧
          machine.step.1 = .error (.refusedOutput line.address refusal)
  /-- A line that lacks operands brings a fault. -/
  missing : ∀ opcode, line.head = .opcode opcode → line.operands.length < opcode.operandCount →
    ∃ fault, machine.step.1 = .error fault

/-- A machine at the address of a line follows it. -/
theorem followsLine {before after : List Line}
    (hlisting : ofProgram machine.code.toList = before ++ line :: after)
    (haddress : line.address = machine.pc) (hrunning : machine.halted = false) :
    FollowsLine machine line after := by
  obtain ⟨rest, h⟩ := exists_standsAt hlisting haddress
  refine ⟨fun progress hok hpassed => ?_, fun progress target hok htaken => ?_,
    fun progress hok code hsize hprefix => ?_, h.step_traced hrunning,
    fun word hhead => h.step_unknown hrunning hhead, fun opcode hhead hmissing => ?_⟩
  · have hpc := (h.lands hrunning hok).pc
    have hstart := startOf_after hlisting
    rw [hpassed] at hpc
    rw [Array.length_toList] at hstart
    have hend : machine.step.2.pc = machine.pc + line.words.length := Int.ofNat_inj.mp hpc
    refine ⟨by rw [hend, hstart, haddress], ?_⟩
    rw [hend, Nat.add_sub_cancel_left, h.words, List.take_left]
  · have hpc := (h.lands hrunning hok).pc
    rw [htaken] at hpc
    exact hpc
  · obtain ⟨behind, hwords⟩ := hprefix
    obtain ⟨opcode, -, hhead, hcount, -⟩ := h.exists_execute hrunning hok
    exact h.step_program opcode hrunning hhead hcount hsize hwords.symm
  · cases hresult : machine.step.1 with
    | error fault => exact ⟨fault, rfl⟩
    | ok progress =>
      obtain ⟨found, -, hfound, hcount, -⟩ := h.exists_execute hrunning hresult
      rw [hhead] at hfound
      cases hfound
      omega

/-- A step without a fault leads from the start of a line to the start of a line, or to the
end of the program, if its jump does. -/
theorem startsLine_step (hplace : StartsLine machine.code.toList machine.pc) {progress : Progress}
    (hok : machine.step.1 = .ok progress)
    (hjump : ∀ target, machine.jumpTarget? = some target →
      StartsLine machine.code.toList target.toInt.toNat) :
    machine.step.2.code = machine.code ∧ StartsLine machine.code.toList machine.step.2.pc := by
  by_cases hhalted : machine.halted = true
  · rw [step_of_halted machine hhalted]
    exact ⟨rfl, hplace⟩
  have hrunning : machine.halted = false := eq_false_of_ne_true hhalted
  obtain hend | ⟨line, hline, haddress⟩ := hplace
  · have hfetch : machine.code[machine.pc]? = none :=
      Array.getElem?_eq_none (by rw [hend, Array.length_toList])
    rw [step_of_outside machine hrunning hfetch] at hok
    contradiction
  · obtain ⟨before, after, hlisting⟩ := List.append_of_mem hline
    obtain ⟨rest, h⟩ := exists_standsAt hlisting haddress
    obtain ⟨hcode, hpc⟩ := h.lands hrunning hok
    refine ⟨hcode, ?_⟩
    cases htarget : machine.jumpTarget? with
    | none =>
      rw [htarget] at hpc
      have hbehind : machine.step.2.pc = line.address + line.words.length := by
        rw [haddress]
        exact Int.ofNat_inj.mp hpc
      rw [hbehind]
      exact startsLine_after hlisting
    | some target =>
      rw [htarget] at hpc
      have hlanded : machine.step.2.pc = target.toInt.toNat := by
        have hpc : (machine.step.2.pc : Int) = target.toInt := hpc
        omega
      rw [hlanded]
      exact hjump target htarget

/-- Calls of a step without a fault keep the program, and the machine at starts of lines. -/
theorem startsLine_afterCalls (hplace : StartsLine machine.code.toList machine.pc) (count : Nat)
    (hok : ∀ earlier < count, ∃ progress, (machine.afterCalls earlier).step.1 = .ok progress)
    (hjump : ∀ earlier < count, ∀ target, (machine.afterCalls earlier).jumpTarget? = some target →
      StartsLine machine.code.toList target.toInt.toNat) :
    (machine.afterCalls count).code = machine.code ∧
      StartsLine machine.code.toList (machine.afterCalls count).pc := by
  induction count with
  | zero => exact ⟨rfl, hplace⟩
  | succ count ih =>
    obtain ⟨hcode, hpc⟩ := ih (fun earlier hearlier => hok earlier (by omega))
      fun earlier hearlier => hjump earlier (by omega)
    obtain ⟨progress, hprogress⟩ := hok count (by omega)
    have htarget := hjump count (by omega)
    rw [← hcode] at hpc htarget
    obtain ⟨hsame, hstarts⟩ := startsLine_step hpc hprogress htarget
    rw [hcode] at hsame hstarts
    exact ⟨hsame, hstarts⟩

end Machine

/-- A machine goes through the listing of its program. As long as its steps bring no fault,
and every jump it takes goes to an address where a line starts or the program ends, it stands
at such an address; and the next step, the first with a fault included, decodes the line at
its address as the listing does. -/
theorem machine_follows_listing (code : Array Int32) {ω : Type} [Output ω] (tracing : Bool)
    (sink : ω) (count : Nat)
    (hok : ∀ earlier < count, ∃ progress,
      ((Machine.start code tracing sink).afterCalls earlier).step.1 = .ok progress)
    (hjump : ∀ earlier < count, ∀ target,
      ((Machine.start code tracing sink).afterCalls earlier).jumpTarget? = some target →
        StartsLine code.toList target.toInt.toNat) :
    let machine := (Machine.start code tracing sink).afterCalls count
    machine.code = code ∧ StartsLine code.toList machine.pc ∧
      ∀ before line after, ofProgram code.toList = before ++ line :: after →
        line.address = machine.pc → machine.halted = false →
          Machine.FollowsLine machine line after := by
  intro machine
  have hstart : StartsLine (Machine.start code tracing sink).code.toList 0 := startsLine_zero _
  obtain ⟨hcode, hplace⟩ := Machine.startsLine_afterCalls hstart count hok hjump
  refine ⟨hcode, hplace, fun before line after hlisting haddress hrunning => ?_⟩
  have hcurrent : ofProgram machine.code.toList = before ++ line :: after := by
    rw [hcode]
    exact hlisting
  exact Machine.followsLine hcurrent haddress hrunning

/-- A jump over a word that is no opcode, and an instruction whose operand is cut off. -/
def cutOffWords : Array Int32 := #[11, 3, 99, 2]

/-- The machine jumps over the word that is no opcode, to the instruction that lacks its
operand, and there a step faults. -/
theorem machine_follows_listing_cutOff :
    (∀ earlier < 1, ∃ progress,
      ((Machine.start cutOffWords true ({} : Sink)).afterCalls earlier).step.1 = .ok progress) ∧
      (∀ earlier < 1, ∀ target,
        ((Machine.start cutOffWords true ({} : Sink)).afterCalls earlier).jumpTarget? =
            some target →
          StartsLine cutOffWords.toList target.toInt.toNat) ∧
      ofProgram cutOffWords.toList =
        [⟨0, .opcode .j, [3]⟩, ⟨2, .data 99, []⟩, ⟨3, .opcode .push, []⟩] ∧
      ∃ fault,
        ((Machine.start cutOffWords true ({} : Sink)).afterCalls 1).step.1 = .error fault := by
  have hlisting : ofProgram cutOffWords.toList =
      [⟨0, .opcode .j, [3]⟩, ⟨2, .data 99, []⟩, ⟨3, .opcode .push, []⟩] := by decide +kernel
  have hfirst : ((Machine.start cutOffWords true ({} : Sink)).afterCalls 0).step.1 =
      .ok .running := rfl
  have htarget : ((Machine.start cutOffWords true ({} : Sink)).afterCalls 0).jumpTarget? =
      some 3 := rfl
  have hplace : ((Machine.start cutOffWords true ({} : Sink)).afterCalls 1).pc = 3 := rfl
  have hrunning : ((Machine.start cutOffWords true ({} : Sink)).afterCalls 1).halted = false :=
    rfl
  have hok : ∀ earlier < 1, ∃ progress,
      ((Machine.start cutOffWords true ({} : Sink)).afterCalls earlier).step.1 =
        .ok progress := by
    intro earlier hearlier
    obtain rfl := Nat.lt_one_iff.mp hearlier
    exact ⟨_, hfirst⟩
  have hjump : ∀ earlier < 1, ∀ target,
      ((Machine.start cutOffWords true ({} : Sink)).afterCalls earlier).jumpTarget? =
          some target →
        StartsLine cutOffWords.toList target.toInt.toNat := by
    intro earlier hearlier target htaken
    obtain rfl := Nat.lt_one_iff.mp hearlier
    rw [htarget] at htaken
    cases htaken
    exact .inr ⟨⟨3, .opcode .push, []⟩, by rw [hlisting]; decide, rfl⟩
  obtain ⟨-, -, hfollows⟩ := machine_follows_listing cutOffWords true ({} : Sink) 1 hok hjump
  have hline := hfollows [⟨0, .opcode .j, [3]⟩, ⟨2, .data 99, []⟩] ⟨3, .opcode .push, []⟩ []
    hlisting hplace.symm hrunning
  exact ⟨hok, hjump, hlisting, hline.missing .push rfl (by decide)⟩

/-- A machine that traces into an output without room does not come to the word that is no
opcode: the line of the trace is refused before. -/
theorem refused_line_hides_unknown_opcode :
    let machine := Machine.start #[99] true ({ room := some 0 } : Sink)
    ofProgram [99] = [⟨0, .data 99, []⟩] ∧ machine.pc = 0 ∧ machine.halted = false ∧
      machine.step.1 = .error (.refusedOutput 0 .closed) ∧
      machine.step.1 ≠ .error (.unknownOpcode 0 99) := by
  intro machine
  have hlisting : ofProgram [99] = [⟨0, .data 99, []⟩] := by decide +kernel
  have hstep : machine.step.1 = .error (.refusedOutput 0 .closed) := by decide +kernel
  refine ⟨hlisting, rfl, rfl, hstep, ?_⟩
  rw [hstep]
  intro hequal
  cases hequal

end LanguageKit
