import LanguageKit.Proofs.Announcement
import LanguageKit.Proofs.ListingRoundTrip

/-!
# Output that is cut short

A place for the output may take a limited number of bytes and refuse those beyond it. A
machine that writes there goes through the same steps as one whose output takes everything,
up to the step whose texts do not fit any more. That step faults at its first text that does
not fit, before anything else can go wrong in it, and what has been written by then is the
beginning of the other output, cut at the limit. Everything a machine writes is ASCII, so
that the cut may fall anywhere in a line or in a printed number.
-/

namespace LanguageKit

open Text

namespace Text

/-- A text of characters that take one byte each, as those of ASCII do. -/
def Ascii (text : String) : Prop := ∀ c ∈ text.toList, c.utf8Size = 1

/-- The characters of a text can be looked through. -/
instance (text : String) : Decidable (Ascii text) :=
  List.decidableBAll (fun c : Char => c.utf8Size = 1) text.toList

/-- Two texts of ASCII make one. -/
theorem Ascii.append {first second : String} (h : Ascii first) (h' : Ascii second) :
    Ascii (first ++ second) := by
  intro c hc
  rw [String.toList_append] at hc
  rcases List.mem_append.mp hc with hc | hc
  · exact h c hc
  · exact h' c hc

/-- Digits are in ASCII. -/
theorem utf8Size_of_isDigit {c : Char} (h : c.isDigit = true) : c.utf8Size = 1 := by
  have hhigh : c.toNat ≤ 57 := (Char.isDigit_iff_toNat.mp h).2
  exact Char.utf8Size_eq_one_iff.mpr
    (UInt32.le_iff_toNat_le.mpr (Nat.le_trans hhigh (by decide)))

/-- A word is written in ASCII. -/
theorem ascii_wordText (word : Int32) : Ascii (wordText word) := by
  intro c hc
  rcases of_mem_wordText hc with hdigit | rfl
  · exact utf8Size_of_isDigit hdigit
  · rfl

/-- An address is written in ASCII. -/
theorem ascii_addressText (address : Nat) : Ascii (addressText address) :=
  fun _ hc => utf8Size_of_isDigit (isDigit_of_mem_addressText hc)

/-- A mnemonic is written in ASCII. -/
theorem ascii_name (opcode : Opcode) : Ascii opcode.name := by
  cases opcode <;> decide +kernel

/-- Words in brackets are written in ASCII. -/
theorem ascii_fullForm (words : List Int32) : Ascii (fullForm words) := by
  have hcomma : Ascii ", " := by decide +kernel
  have hjoint : Ascii (", ".intercalate (words.map wordText)) := by
    intro c hc
    rw [String.toList_intercalate, List.map_map] at hc
    rcases Program.of_mem_intercalate hc with hseparator | ⟨text, htext, hc⟩
    · exact hcomma c hseparator
    · obtain ⟨word, -, rfl⟩ := List.mem_map.mp htext
      exact ascii_wordText word c hc
  have hopen : Ascii "[" := by decide +kernel
  have hclose : Ascii "]" := by decide +kernel
  exact (hopen.append hjoint).append hclose

/-- A text of ASCII has as many bytes as characters. -/
theorem byteSize_of_ascii {text : List Char} (h : ∀ c ∈ text, c.utf8Size = 1) :
    byteSize text = text.length := by
  induction text with
  | nil => rfl
  | cons c rest ih =>
    have hc := h c List.mem_cons_self
    have hrest := ih fun d hd => h d (List.mem_cons_of_mem c hd)
    rw [byteSize, hc, hrest, List.length_cons, Nat.add_comm]

/-- Of a text of ASCII every byte that fits is taken. -/
theorem takeBytes_of_ascii {text : List Char} (h : ∀ c ∈ text, c.utf8Size = 1) (room : Nat) :
    takeBytes room text = text.take room := by
  induction text generalizing room with
  | nil => rw [takeBytes, List.take_nil]
  | cons c rest ih =>
    have hc := h c List.mem_cons_self
    have hrest := ih fun d hd => h d (List.mem_cons_of_mem c hd)
    cases room with
    | zero => rw [takeBytes_zero, List.take_zero]
    | succ room =>
      rw [takeBytes, hc, if_pos (Nat.le_add_left 1 room), Nat.add_sub_cancel, hrest,
        List.take_succ_cons]

end Text

namespace Output

variable {ω : Type} [Output ω]

/-- Writes texts, one after the other, up to the first that is refused. -/
def attempt (sink : ω) : List String → Except Refusal Unit × ω
  | [] => (.ok (), sink)
  | text :: rest =>
    match write sink text with
    | (.ok (), taken) => attempt taken rest
    | (.error refusal, taken) => (.error refusal, taken)

/-- A single text is written or refused. -/
theorem attempt_single (sink : ω) (text : String) : attempt sink [text] = write sink text := by
  unfold attempt
  obtain ⟨_ | _, taken⟩ := write sink text <;> rfl

end Output

namespace Machine

variable {ω : Type} [Output ω] {α : Type}

/-- How a part of a step comes out when its texts go to another place, from how it comes out
where nothing is refused: if the other place takes all texts, it makes no difference, and
otherwise the refusal is the fault of the part. -/
def Diverted (pc : Nat) (tracing : Bool) (attempted : Except Refusal Unit × ω)
    (free outcome : Except Fault α × Machine ω) : Prop :=
  match attempted with
  | (.ok (), sink) => outcome = (free.1, free.2.redirect tracing sink)
  | (.error refusal, sink) =>
    outcome.1 = .error (.refusedOutput pc refusal) ∧ outcome.2.sink = sink

/-- The texts a step writes if none of them is refused: its line if it traces, and what it
writes by itself. -/
def texts (machine : Machine ω) (tracing : Bool) : List String :=
  (if tracing then machine.announced else []) ++ machine.printed

/-- An instruction whose output goes to another place. -/
theorem diverted_execute (machine : Machine ω) (h : Output.Accepting machine.sink) (sink : ω)
    (pc : Nat) (opcode : Opcode) (tracing : Bool) :
    Diverted pc tracing (Output.attempt sink (machine.printedBy opcode))
      ((execute pc opcode).run.run machine)
      ((execute pc opcode).run.run (machine.redirect tracing sink)) := by
  by_cases hprint : opcode = .print
  · subst hprint
    rw [run_print machine h, run_print_text]
    unfold Stack.pop printedBy redirect
    dsimp only
    cases machine.stack.top? with
    | none => rfl
    | some word =>
      dsimp only
      rw [Output.attempt_single]
      obtain ⟨_ | _, taken⟩ := Output.write sink (wordText word ++ "\n")
      · exact ⟨rfl, rfl⟩
      · rfl
  · rw [machine.printedBy_of_ne_print hprint]
    exact (internal_execute pc opcode hprint).redirect machine tracing sink

omit [Output ω] in
/-- A machine that is halted or stands outside of its program writes nothing. -/
theorem texts_of_not_running {machine : Machine ω}
    (h : ¬ (machine.halted = false ∧ machine.pc < machine.code.size)) (tracing : Bool) :
    machine.texts tracing = [] := by
  have hannounced : machine.announced = [] := dif_neg h
  have hprinted : machine.printed = [] := by
    by_cases hhalted : machine.halted = true
    · exact if_pos hhalted
    · have hfetch : machine.code[machine.pc]? = none := Array.getElem?_eq_none_iff.mpr
        (Nat.not_lt.mp fun hlt => h ⟨eq_false_of_ne_true hhalted, hlt⟩)
      rw [printed, if_neg hhalted, hfetch, Option.bind_none]
  rw [texts, hannounced, hprinted, ite_self, List.append_nil]

/-- Its step leaves it as it is, wherever it writes. -/
theorem step_of_not_running {machine : Machine ω}
    (h : ¬ (machine.halted = false ∧ machine.pc < machine.code.size)) (tracing : Bool)
    (sink : ω) :
    machine.step.2 = machine ∧ (machine.redirect tracing sink).step =
      (machine.step.1, machine.redirect tracing sink) := by
  by_cases hhalted : machine.halted = true
  · rw [step_of_halted machine hhalted, step_of_halted (machine.redirect tracing sink) hhalted]
    exact ⟨rfl, rfl⟩
  · have hrunning : machine.halted = false := eq_false_of_ne_true hhalted
    have hfetch : machine.code[machine.pc]? = none :=
      Array.getElem?_eq_none_iff.mpr (Nat.not_lt.mp fun hlt => h ⟨hrunning, hlt⟩)
    rw [step_of_outside machine hrunning hfetch,
      step_of_outside (machine.redirect tracing sink) hrunning hfetch]
    exact ⟨rfl, rfl⟩

/-- So it does not matter where its output goes. -/
theorem diverted_of_not_running {machine : Machine ω}
    (h : ¬ (machine.halted = false ∧ machine.pc < machine.code.size)) (tracing : Bool)
    (sink : ω) :
    Diverted machine.pc tracing (Output.attempt sink (machine.texts tracing)) machine.step
      (machine.redirect tracing sink).step := by
  obtain ⟨hmachine, hstep⟩ := step_of_not_running h tracing sink
  rw [texts_of_not_running h, hstep]
  unfold Diverted Output.attempt
  dsimp only
  rw [hmachine]

/-- A step that does not trace and whose output goes to another place. -/
theorem diverted_silent (machine : Machine ω) (h : Output.Accepting machine.sink) (sink : ω) :
    Diverted machine.pc false (Output.attempt sink machine.printed) machine.step
      (machine.redirect false sink).step := by
  by_cases hrun : machine.halted = false ∧ machine.pc < machine.code.size
  · obtain ⟨hrunning, hinside⟩ := hrun
    have hnotHalted : ¬ machine.halted = true := ne_true_of_eq_false hrunning
    have hfetch : machine.code[machine.pc]? = some machine.code[machine.pc] :=
      Array.getElem?_eq_getElem hinside
    cases hword : Opcode.ofWord? machine.code[machine.pc] with
    | none =>
      have hprinted : machine.printed = [] := by
        rw [printed, if_neg hnotHalted, hfetch, Option.bind_some, hword]
      rw [hprinted, step_of_unknown machine h hrunning hfetch hword,
        step_silent_unknown (machine.redirect false sink) rfl hrunning hfetch hword]
      rfl
    | some opcode =>
      have hprinted : machine.printed = machine.printedBy opcode := by
        rw [printed, if_neg hnotHalted, hfetch, Option.bind_some, hword]
      rw [hprinted, step_of_opcode machine h hrunning hfetch hword,
        step_silent_opcode (machine.redirect false sink) rfl hrunning hfetch hword]
      exact diverted_execute
        { machine.announce with pc := machine.pc + 1, steps := machine.steps + 1 }
        (h.writeAll _) sink machine.pc opcode false
  · exact diverted_of_not_running hrun false sink

/-- A step whose output goes to another place does what it does where nothing is refused, if
the other place takes its texts, and otherwise faults at the first text that is refused. -/
theorem diverted_step (machine : Machine ω) (h : Output.Accepting machine.sink) (sink : ω)
    (tracing : Bool) :
    Diverted machine.pc tracing (Output.attempt sink (machine.texts tracing)) machine.step
      (machine.redirect tracing sink).step := by
  cases tracing with
  | false => exact diverted_silent machine h sink
  | true =>
    by_cases hrun : machine.halted = false ∧ machine.pc < machine.code.size
    · obtain ⟨hrunning, hinside⟩ := hrun
      have hfetch : machine.code[machine.pc]? = some machine.code[machine.pc] :=
        Array.getElem?_eq_getElem hinside
      have htexts : machine.texts true =
          machine.announcement machine.code[machine.pc] :: machine.printed := by
        rw [texts, if_pos rfl, announced_of_fetch hrunning hfetch, List.singleton_append]
      have htracing : (machine.redirect true sink).tracing = true := rfl
      have hline : (machine.redirect true sink).announcement machine.code[machine.pc] =
          machine.announcement machine.code[machine.pc] := rfl
      rw [htexts, Output.attempt, step_traced htracing hrunning hfetch, hline]
      -- the line comes first; behind it the step goes on as one that does not trace
      match hwrite : Output.write sink (machine.announcement machine.code[machine.pc]) with
      | (.error refusal, taken) =>
        rw [behindLine_refused (machine.redirect true sink) hwrite]
        exact ⟨rfl, rfl⟩
      | (.ok _, taken) =>
        rw [behindLine_taken (machine.redirect true sink) hwrite]
        have hsilent := diverted_silent machine h taken
        unfold Diverted at hsilent ⊢
        dsimp only
        generalize Output.attempt taken machine.printed = attempted at hsilent ⊢
        obtain ⟨refusal | _, last⟩ := attempted
        · exact hsilent
        · have hstep : ((machine.redirect true sink).redirect false taken).step =
              (machine.step.1, machine.step.2.redirect false last) := hsilent
          dsimp only
          rw [hstep]
          rfl
    · exact diverted_of_not_running hrun true sink

/-- A step adds its texts to an output that takes everything. -/
theorem sink_step {machine : Machine ω} (h : Output.Accepting machine.sink) :
    machine.step.2.sink = Output.writeAll machine.sink (machine.texts machine.tracing) :=
  congrArg (fun outcome => outcome.2.sink) (step_redirect machine h h machine.tracing)

end Machine

namespace Sink

/-- The bytes accepted so far. -/
def bytes (sink : Sink) : List UInt8 := sink.text.toUTF8.data.toList

/-- The same sink with room for what a limit leaves it. -/
def limitedTo (sink : Sink) (limit : Nat) : Sink :=
  { sink with room := some (limit - sink.size) }

/-- The bytes of the beginning of an output are the first bytes of the output. -/
theorem bytes_eq_take {taken whole : Sink} {rest : String}
    (h : whole.text = taken.text ++ rest) : taken.bytes = whole.bytes.take taken.size := by
  have hbytes : whole.bytes = taken.bytes ++ rest.toUTF8.data.toList := by
    have hdata : (taken.text ++ rest).toUTF8.data = taken.text.toUTF8.data ++ rest.toUTF8.data := by
      rw [← ByteArray.data_append]
      exact congrArg ByteArray.data String.toByteArray_append
    rw [bytes, h, hdata, Array.toList_append]
    rfl
  have hsize : taken.bytes.length = taken.size := Array.length_toList
  rw [hbytes, ← hsize, List.take_left]

variable {sink : Sink} {limit : Nat}

/-- A sink without a limit takes a text whole. -/
theorem write_unlimited (h : sink.room = none) (text : String) :
    Output.write sink text = (.ok (), { sink with text := sink.text ++ text }) := by
  have hsink : Output.write sink text = sink.write text := rfl
  rw [hsink, Sink.write, h]

/-- The first of several texts is written in front of the others. -/
theorem writeAll_cons (h : sink.room = none) (text : String) (texts : List String) :
    Output.writeAll sink (text :: texts) =
      Output.writeAll { sink with text := sink.text ++ text } texts := by
  rw [Output.writeAll, List.foldl_cons, write_unlimited h]
  rfl

/-- Nothing that has been written is lost by writing more. -/
theorem exists_writeAll (h : sink.room = none) (texts : List String) :
    (Output.writeAll sink texts).room = none ∧
      ∃ rest, (Output.writeAll sink texts).text = sink.text ++ rest := by
  induction texts generalizing sink with
  | nil => exact ⟨h, "", String.append_empty.symm⟩
  | cons text texts ih =>
    have hopen : ({ sink with text := sink.text ++ text } : Sink).room = none := h
    obtain ⟨hroom, rest, hrest⟩ := ih hopen
    rw [writeAll_cons h]
    exact ⟨hroom, text ++ rest, by rw [hrest, String.append_assoc]⟩

/-- What has been written does not shrink by writing more. -/
theorem size_le_writeAll (h : sink.room = none) (texts : List String) :
    sink.size ≤ (Output.writeAll sink texts).size := by
  obtain ⟨-, rest, hrest⟩ := exists_writeAll h texts
  rw [size, size, hrest, String.utf8ByteSize_append]
  exact Nat.le_add_right _ _

/-- A text that fits under the limit is taken whole. -/
theorem write_of_fits {text : String} (htext : Ascii text)
    (hfit : sink.size + text.utf8ByteSize ≤ limit) :
    Output.write (sink.limitedTo limit) text =
      (.ok (), limitedTo { sink with text := sink.text ++ text } limit) := by
  have hlength : text.utf8ByteSize = text.toList.length := by
    rw [← byteSize_toList, byteSize_of_ascii htext]
  have haccepted : String.ofList (takeBytes (limit - sink.size) text.toList) = text := by
    rw [takeBytes_of_ascii htext, List.take_of_length_le (by omega), String.ofList_toList]
  have hrest : limit - sink.size - text.utf8ByteSize =
      limit - (sink.text ++ text).utf8ByteSize := by
    rw [String.utf8ByteSize_append, Nat.sub_sub]
    rfl
  change (sink.limitedTo limit).write text = _
  simp only [Sink.write, limitedTo, haccepted, hrest]
  rw [if_pos (by omega)]
  rfl

/-- Of a text that leads over the limit the beginning is taken, up to the limit. -/
theorem exists_write_of_exceeds {text : String} (htext : Ascii text) (hsize : sink.size ≤ limit)
    (hexceeds : limit < sink.size + text.utf8ByteSize) :
    ∃ taken rest, Output.write (sink.limitedTo limit) text = (.error .closed, taken) ∧
      sink.text ++ text = taken.text ++ rest ∧ taken.size = limit := by
  let first := String.ofList (text.toList.take (limit - sink.size))
  let rest := String.ofList (text.toList.drop (limit - sink.size))
  have hlength : text.utf8ByteSize = text.toList.length := by
    rw [← byteSize_toList, byteSize_of_ascii htext]
  have hfirst : first.utf8ByteSize = limit - sink.size := by
    have hascii : ∀ c ∈ text.toList.take (limit - sink.size), c.utf8Size = 1 :=
      fun c hc => htext c (List.mem_of_mem_take hc)
    rw [utf8ByteSize_ofList, byteSize_of_ascii hascii, List.length_take]
    omega
  have hjoin : first ++ rest = text := by
    rw [← String.ofList_append, List.take_append_drop, String.ofList_toList]
  have hwrite : Output.write (sink.limitedTo limit) text =
      (.error .closed, ⟨sink.text ++ first, some 0⟩) := by
    change (sink.limitedTo limit).write text = _
    simp only [Sink.write, limitedTo, takeBytes_of_ascii htext]
    rw [if_neg (by omega), hfirst, Nat.sub_self]
  refine ⟨⟨sink.text ++ first, some 0⟩, rest, hwrite, ?_, ?_⟩
  · rw [String.append_assoc, hjoin]
  · rw [size, String.utf8ByteSize_append, hfirst]
    exact Nat.add_sub_cancel' hsize

/-- Texts that fit under the limit are all taken. -/
theorem attempt_of_fits (hroom : sink.room = none) {texts : List String}
    (htexts : ∀ text ∈ texts, Ascii text) (hfit : (Output.writeAll sink texts).size ≤ limit) :
    Output.attempt (sink.limitedTo limit) texts =
      (.ok (), (Output.writeAll sink texts).limitedTo limit) := by
  induction texts generalizing sink with
  | nil => rfl
  | cons text texts ih =>
    have hcons := writeAll_cons hroom text texts
    have hopen : ({ sink with text := sink.text ++ text } : Sink).room = none := hroom
    have hsize := size_le_writeAll hopen texts
    rw [hcons] at hfit
    have hfirst : sink.size + text.utf8ByteSize ≤ limit := by
      rw [size, String.utf8ByteSize_append] at hsize
      exact Nat.le_trans hsize hfit
    rw [Output.attempt, write_of_fits (htexts text List.mem_cons_self) hfirst, hcons]
    exact ih hopen (fun other hother => htexts other (List.mem_cons_of_mem text hother)) hfit

/-- Texts that lead over the limit are taken up to the limit, and then one is refused. -/
theorem exists_attempt_of_exceeds (hroom : sink.room = none) {texts : List String}
    (htexts : ∀ text ∈ texts, Ascii text) (hsize : sink.size ≤ limit)
    (hexceeds : limit < (Output.writeAll sink texts).size) :
    ∃ taken rest, Output.attempt (sink.limitedTo limit) texts = (.error .closed, taken) ∧
      (Output.writeAll sink texts).text = taken.text ++ rest ∧ taken.size = limit := by
  induction texts generalizing sink with
  | nil => exact absurd hexceeds (Nat.not_lt.mpr hsize)
  | cons text texts ih =>
    have htext := htexts text List.mem_cons_self
    have hcons := writeAll_cons hroom text texts
    have hopen : ({ sink with text := sink.text ++ text } : Sink).room = none := hroom
    rw [hcons] at hexceeds ⊢
    by_cases hfirst : sink.size + text.utf8ByteSize ≤ limit
    · have hnext : ({ sink with text := sink.text ++ text } : Sink).size ≤ limit := by
        rw [size, String.utf8ByteSize_append]
        exact hfirst
      rw [Output.attempt, write_of_fits htext hfirst]
      exact ih hopen (fun other hother => htexts other (List.mem_cons_of_mem text hother)) hnext
        hexceeds
    · obtain ⟨taken, rest, hwrite, hjoin, htaken⟩ :=
        exists_write_of_exceeds htext hsize (Nat.lt_of_not_le hfirst)
      obtain ⟨-, later, hlater⟩ := exists_writeAll hopen texts
      refine ⟨taken, rest ++ later, ?_, ?_, htaken⟩
      · rw [Output.attempt, hwrite]
      · rw [hlater, hjoin, String.append_assoc]

end Sink

namespace Machine

/-- The line of an instruction is written in ASCII. -/
theorem ascii_traceLine (machine : Machine) (pc : Nat) {name : String} (h : Ascii name)
    (operandCount : Nat) : Ascii (machine.traceLine pc name operandCount) := by
  have hcolon : Ascii ": " := by decide +kernel
  have hblank : Ascii " " := by decide +kernel
  have htab : Ascii " \t" := by decide +kernel
  have hend : Ascii "\n" := by decide +kernel
  exact (((((((ascii_addressText pc).append hcolon).append h).append hblank).append
    (ascii_fullForm _)).append htab).append (ascii_fullForm _)).append hend

/-- A step writes in ASCII. -/
theorem ascii_of_mem_texts (machine : Machine) (tracing : Bool) :
    ∀ text ∈ machine.texts tracing, Ascii text := by
  intro text htext
  rcases List.mem_append.mp htext with hline | hprinted
  · have hannounced : text ∈ machine.announced := by
      split at hline
      · exact hline
      · contradiction
    unfold announced at hannounced
    split at hannounced
    · rw [List.mem_singleton.mp hannounced, announcement]
      split
      · exact ascii_traceLine machine _ (ascii_name _) _
      · have hmark : Ascii ".word " := by decide +kernel
        exact ascii_traceLine machine _ (hmark.append (ascii_wordText _)) 0
    · contradiction
  · have hend : Ascii "\n" := by decide +kernel
    unfold printed at hprinted
    split at hprinted
    · contradiction
    · split at hprinted
      · unfold printedBy at hprinted
        split at hprinted
        · rw [List.mem_singleton.mp hprinted]
          exact (ascii_wordText _).append hend
        · contradiction
      · contradiction

/-- The same machine, whose output has room for what a limit leaves it. -/
def limitedTo (machine : Machine) (limit : Nat) : Machine :=
  { machine with sink := machine.sink.limitedTo limit }

variable {machine : Machine} {limit : Nat}

/-- A step leaves an output without a limit as one, and adds to it. -/
theorem unlimited_step (hroom : machine.sink.room = none) :
    machine.step.2.sink.room = none ∧ machine.sink.size ≤ machine.step.2.sink.size := by
  rw [sink_step (Sink.accepting hroom)]
  exact ⟨(Sink.exists_writeAll hroom _).1, Sink.size_le_writeAll hroom _⟩

/-- A step whose texts fit under the limit goes as it goes without a limit. -/
theorem step_of_fits (hroom : machine.sink.room = none)
    (hfit : machine.step.2.sink.size ≤ limit) :
    (machine.limitedTo limit).step = (machine.step.1, machine.step.2.limitedTo limit) := by
  have haccepting := Sink.accepting hroom
  have hdiverted := diverted_step machine haccepting (machine.sink.limitedTo limit)
    machine.tracing
  rw [sink_step haccepting] at hfit
  rw [Sink.attempt_of_fits hroom (machine.ascii_of_mem_texts machine.tracing) hfit,
    ← sink_step haccepting] at hdiverted
  have hstep : (machine.limitedTo limit).step = (machine.step.1,
      machine.step.2.redirect machine.tracing (machine.step.2.sink.limitedTo limit)) := hdiverted
  rw [hstep, ← tracing_step machine]
  rfl

/-- A step whose texts lead over the limit faults, and the output is cut at the limit. -/
theorem step_of_exceeds (hroom : machine.sink.room = none) (hsize : machine.sink.size ≤ limit)
    (hexceeds : limit < machine.step.2.sink.size) :
    (machine.limitedTo limit).step.1 = .error (.refusedOutput machine.pc .closed) ∧
      (machine.limitedTo limit).step.2.sink.bytes = machine.step.2.sink.bytes.take limit := by
  have haccepting := Sink.accepting hroom
  have hdiverted := diverted_step machine haccepting (machine.sink.limitedTo limit)
    machine.tracing
  rw [sink_step haccepting] at hexceeds
  obtain ⟨taken, rest, hattempt, hjoin, htaken⟩ := Sink.exists_attempt_of_exceeds hroom
    (machine.ascii_of_mem_texts machine.tracing) hsize hexceeds
  rw [hattempt] at hdiverted
  obtain ⟨hfault, hsink⟩ := hdiverted
  refine ⟨hfault, ?_⟩
  have hlast : (machine.limitedTo limit).step.2.sink = taken := hsink
  rw [hlast, sink_step haccepting, Sink.bytes_eq_take hjoin, htaken]

/-- Calls of a step leave an output without a limit as one. -/
theorem unlimited_afterCalls (hroom : machine.sink.room = none) (count : Nat) :
    (machine.afterCalls count).sink.room = none := by
  induction count with
  | zero => exact hroom
  | succ count ih => exact (unlimited_step ih).1

/-- What has been written grows from call to call. -/
theorem size_afterCalls_le (hroom : machine.sink.room = none) {count last : Nat}
    (h : count ≤ last) :
    (machine.afterCalls count).sink.size ≤ (machine.afterCalls last).sink.size := by
  induction h with
  | refl => exact Nat.le_refl _
  | step _ ih => exact Nat.le_trans ih (unlimited_step (unlimited_afterCalls hroom _)).2

/-- As long as the output stays under the limit, calls of a step lead to the same machine
with less room for its output. -/
theorem afterCalls_of_fits (hroom : machine.sink.room = none) {count : Nat}
    (hfit : (machine.afterCalls count).sink.size ≤ limit) :
    (machine.limitedTo limit).afterCalls count = (machine.afterCalls count).limitedTo limit := by
  induction count with
  | zero => rfl
  | succ count ih =>
    have hbefore := ih (Nat.le_trans (size_afterCalls_le hroom (Nat.le_succ count)) hfit)
    rw [afterCalls, hbefore, step_of_fits (unlimited_afterCalls hroom count) hfit]
    rfl

/-- A limit on the output cuts it short and does nothing else. As long as the output of the
machine without a limit stays under the limit, the machine with it has seen the same results
of its steps, differs in nothing but the room that is left, and has written the same. The
first step that would lead over the limit faults with a refusal at its address, whatever else
would happen in it, and what has been written then are the first bytes of the other output,
as many as the limit allows. -/
theorem output_cut_at_limit (code : Array Int32) (tracing : Bool) (limit : Nat) :
    let free := (start code tracing ({} : Sink)).afterCalls
    let limited := (start code tracing ({ room := some limit } : Sink)).afterCalls
    (∀ count, (free count).sink.size ≤ limit →
      (∀ call < count, (limited call).step.1 = (free call).step.1) ∧
        limited count = { free count with sink := (limited count).sink } ∧
        (limited count).sink.text = (free count).sink.text) ∧
      ∀ count, (∀ earlier ≤ count, (free earlier).sink.size ≤ limit) →
        limit < (free (count + 1)).sink.size →
          (limited count).step.1 = .error (.refusedOutput (limited count).pc .closed) ∧
            (limited (count + 1)).sink.bytes = (free (count + 1)).sink.bytes.take limit := by
  intro free limited
  have hroom : (start code tracing ({} : Sink)).sink.room = none := rfl
  have hlimited {count : Nat} (hfit : (free count).sink.size ≤ limit) :
      limited count = (free count).limitedTo limit := afterCalls_of_fits hroom hfit
  refine ⟨fun count hfit => ⟨fun call hcall => ?_, ?_, ?_⟩, fun count hfits hexceeds => ?_⟩
  · have hnext : (free call).step.2.sink.size ≤ limit :=
      Nat.le_trans (size_afterCalls_le hroom (Nat.succ_le_of_lt hcall)) hfit
    have hcalled : (free call).sink.size ≤ limit :=
      Nat.le_trans (size_afterCalls_le hroom (Nat.le_of_lt hcall)) hfit
    rw [hlimited hcalled, step_of_fits (unlimited_afterCalls hroom call) hnext]
  · rw [hlimited hfit]
    rfl
  · rw [hlimited hfit]
    rfl
  · have hcalled : (free count).sink.size ≤ limit := hfits count (Nat.le_refl count)
    obtain ⟨hfault, hbytes⟩ :=
      step_of_exceeds (unlimited_afterCalls hroom count) hcalled hexceeds
    have hlast : limited (count + 1) = (limited count).step.2 := rfl
    rw [hlast, hlimited hcalled]
    exact ⟨hfault, hbytes⟩

/-- The words of a program that prints a word of four digits and then meets one that is no
opcode. -/
def longPrintWords : Array Int32 := #[2, 1234, 8, 99]

/-- With a limit of forty-seven bytes the printed number is cut behind two of its digits. With
one of fifty-five the line of the unknown opcode is cut, and the opcode is not reported. -/
theorem output_cut_at_limit_longPrint :
    let limited (limit : Nat) := start longPrintWords true ({ room := some limit } : Sink)
    let free := start longPrintWords true ({} : Sink)
    ((limited 47).afterCalls 1).step.1 = .error (.refusedOutput 2 .closed) ∧
      ((limited 47).afterCalls 2).sink.bytes = (free.afterCalls 2).sink.bytes.take 47 ∧
      ((limited 55).afterCalls 2).step.1 = .error (.refusedOutput 3 .closed) ∧
      (free.afterCalls 2).step.1 = .error (.unknownOpcode 3 99) := by
  intro limited free
  obtain ⟨hnumber, hbytes⟩ := (output_cut_at_limit longPrintWords true 47).2 1
    (by decide +kernel) (by decide +kernel)
  obtain ⟨hline, -⟩ := (output_cut_at_limit longPrintWords true 55).2 2
    (by decide +kernel) (by decide +kernel)
  have hprint : ((limited 47).afterCalls 1).pc = 2 := by decide +kernel
  have hunknown : ((limited 55).afterCalls 2).pc = 3 := by decide +kernel
  rw [hprint] at hnumber
  rw [hunknown] at hline
  exact ⟨hnumber, hbytes, hline, by decide +kernel⟩

end Machine

end LanguageKit
