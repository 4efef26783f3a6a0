import LanguageKit.Proofs.UpcomingItems
import Mathlib.Data.Stream.Init

/-!
# The stream ahead of a parser

All that a parser of a list is ever going to consume is one endless stream: the items
it has read in advance, the items of the list, and then ends of the input at the
largest end that any item has. The parser does not know that end before it has read
the whole list, but it never shows an end of the input before it has.

Looking ahead reads this stream at any distance. Every consumed item is its head.
-/

namespace LanguageKit

/-- The largest end of some items, zero if there are none. -/
def Item.largestEnd : List Item → Nat
  | [] => 0
  | item :: rest => max item.span.stop (largestEnd rest)

namespace Parser

section Outcomes

variable {σ ε α β : Type}

/-- An operation is rejected and leaves a parser. -/
def Rejects (operation : Parsing σ ε α) (parser : Parser σ ε) (report : Diagnostic)
    (after : Parser σ ε) : Prop :=
  operation.run.run parser = (.error (.rejected report), after)

variable {operation : Parsing σ ε α} {next : α → Parsing σ ε β}
  {parser middle after : Parser σ ε} {answer : α} {report : Diagnostic}

/-- Looking at the parser answers with it. -/
theorem get_answers (parser : Parser σ ε) : Answers get parser parser parser := rfl

/-- Changing the parser changes it. -/
theorem modify_answers (change : Parser σ ε → Parser σ ε) (parser : Parser σ ε) :
    Answers (modify change) parser () (change parser) := rfl

/-- Catching diagnostics makes answers of them and changes nothing else. -/
theorem run_attempt (operation : Parsing σ ε α) (parser : Parser σ ε) :
    (attempt operation).run.run parser =
      match operation.run.run parser with
      | (.ok answer, after) => (.ok (.ok answer), after)
      | (.error (.rejected report), after) => (.ok (.error report), after)
      | (.error interruption, after) => (.error interruption, after) := by
  unfold attempt
  rw [ExceptT.run_mk, StateT.run_bind]
  obtain ⟨(_ | _ | _) | answer, after⟩ := operation.run.run parser <;> rfl

/-- Operations in a row that answer do so one after the other. -/
theorem Answers.of_bind {final : β} (h : Answers (operation >>= next) parser final after) :
    ∃ answer middle, Answers operation parser answer middle ∧
      Answers (next answer) middle final after := by
  unfold Answers at h
  rw [Parser.run_bind] at h
  unfold Answers
  generalize operation.run.run parser = ran at h
  obtain ⟨interruption | answer, middle⟩ := ran
  · cases h
  · exact ⟨answer, middle, rfl, h⟩

/-- What follows an operation is rejected. -/
theorem Answers.bind_rejects (h : Answers operation parser answer middle)
    (hnext : Rejects (next answer) middle report after) :
    Rejects (operation >>= next) parser report after :=
  (h.run_bind next).trans hnext

/-- What follows a rejected operation does not happen. -/
theorem Rejects.bind (h : Rejects operation parser report after) (next : α → Parsing σ ε β) :
    Rejects (operation >>= next) parser report after := by
  have hrun : operation.run.run parser = (.error (.rejected report), after) := h
  unfold Rejects
  rw [Parser.run_bind, hrun]

end Outcomes

variable {ε : Type}

/-- The largest end that any item will have had once the whole list has been read. -/
def finalEnd (parser : Parser (List Item) ε) : Nat :=
  max parser.lastEnd (Item.largestEnd parser.source)

/-- The end of the input behind all items. -/
def finalItem (parser : Parser (List Item) ε) : Item :=
  ⟨.endOfInput, "", ⟨parser.finalEnd, parser.finalEnd⟩⟩

/-- The items that have not been read, and then ends of the input. -/
def supply (parser : Parser (List Item) ε) : Stream' Item :=
  parser.source ++ₛ Stream'.const parser.finalItem

/-- The items that have not been consumed: those read in advance, those of the list,
and then ends of the input. -/
def remaining (parser : Parser (List Item) ε) : Stream' Item :=
  parser.buffer ++ₛ parser.supply

/-- What happens to the items when some of them are consumed: they are taken off the
front of the stream, in order, and recorded. -/
structure Consumes (taken : List Item) (before after : Parser (List Item) ε) : Prop where
  /-- They stood in front of what is left. -/
  remaining_eq : before.remaining = taken ++ₛ after.remaining
  /-- They are recorded behind what has been recorded. -/
  log_eq : after.log = before.log ++ (taken.map Event.consumed).toArray
  /-- The end of the input stays where it is. -/
  finalEnd_eq : after.finalEnd = before.finalEnd

/-- Nothing is consumed where nothing happens. -/
theorem Consumes.refl (parser : Parser (List Item) ε) : Consumes [] parser parser :=
  ⟨rfl, by simp, rfl⟩

/-- Items that are consumed one part after the other. -/
theorem Consumes.trans {before middle after : Parser (List Item) ε} {taken more : List Item}
    (h : Consumes taken before middle) (hmore : Consumes more middle after) :
    Consumes (taken ++ more) before after where
  remaining_eq := by rw [Stream'.append_append_stream, ← hmore.remaining_eq, h.remaining_eq]
  log_eq := by
    rw [hmore.log_eq, h.log_eq, Array.append_assoc, List.map_append]
    exact congrArg _ (List.append_toArray _ _)
  finalEnd_eq := hmore.finalEnd_eq.trans h.finalEnd_eq

/-- What an operation does that consumes items and does not look at the rules. -/
structure Takes (taken : List Item) (before after : Parser (List Item) ε) : Prop
    extends Consumes taken before after, SameRules before after

/-- Nothing is taken where nothing happens. -/
theorem Takes.refl (parser : Parser (List Item) ε) : Takes [] parser parser :=
  ⟨.refl parser, rfl, rfl⟩

/-- Items that are taken one part after the other. -/
theorem Takes.trans {before middle after : Parser (List Item) ε} {taken more : List Item}
    (h : Takes taken before middle) (hmore : Takes more middle after) :
    Takes (taken ++ more) before after :=
  ⟨h.toConsumes.trans hmore.toConsumes, hmore.prefixes.trans h.prefixes,
    hmore.infixes.trans h.infixes⟩

/-- Reading an item takes it off the supply, and does nothing else. -/
theorem pull_takes (parser : Parser (List Item) ε) :
    ∃ item after, Answers pull parser item after ∧ parser.supply = [item] ++ₛ after.supply ∧
      after.buffer = parser.buffer ∧ after.log = parser.log ∧
      after.finalEnd = parser.finalEnd ∧ SameRules parser after := by
  obtain ⟨source, buffer, lastEnd, prefixes, infixes, log⟩ := parser
  cases source with
  | nil =>
    refine ⟨_, _, rfl, ?_, rfl, Array.append_empty, rfl, rfl, rfl⟩
    -- the whole list has been read, so that the end shown is the final one
    have hend : max lastEnd 0 = lastEnd := Nat.max_eq_left (Nat.zero_le lastEnd)
    change Stream'.const (⟨.endOfInput, "", ⟨max lastEnd 0, max lastEnd 0⟩⟩ : Item) =
      [⟨.endOfInput, "", ⟨lastEnd, lastEnd⟩⟩] ++ₛ
        Stream'.const ⟨.endOfInput, "", ⟨max lastEnd 0, max lastEnd 0⟩⟩
    rw [hend]
    exact Stream'.const_eq _
  | cons item rest =>
    have hend : max (max lastEnd item.span.stop) (Item.largestEnd rest) =
        max lastEnd (max item.span.stop (Item.largestEnd rest)) := Nat.max_assoc ..
    refine ⟨_, _, rfl, ?_, rfl, Array.append_empty, hend, rfl, rfl⟩
    unfold supply finalItem finalEnd
    dsimp only [Item.largestEnd]
    rw [hend]
    rfl

/-- Reading in advance consumes nothing. -/
theorem fill_keeps (count : Nat) (parser : Parser (List Item) ε) :
    ∃ after, Answers (fill count) parser () after ∧ Takes [] parser after ∧
      after.buffer.length = parser.buffer.length + count := by
  induction count generalizing parser with
  | zero => exact ⟨parser, rfl, .refl parser, rfl⟩
  | succ count ih =>
    obtain ⟨item, pulled, hpull, hsupply, hbuffer, hlog, hend, hrules⟩ := pull_takes parser
    let keep (parser : Parser (List Item) ε) : Parser (List Item) ε :=
      { parser with buffer := parser.buffer ++ [item] }
    let read := keep pulled
    have hread : Takes [] parser read := by
      refine ⟨⟨?_, ?_, hend⟩, hrules.prefixes, hrules.infixes⟩
      · change parser.buffer ++ₛ parser.supply = (pulled.buffer ++ [item]) ++ₛ pulled.supply
        rw [hsupply, hbuffer, Stream'.append_append_stream]
      · exact hlog.trans (Consumes.refl parser).log_eq
    obtain ⟨after, hfill, hafter, hlength⟩ := ih read
    refine ⟨after, hpull.bind ((modify_answers keep pulled).bind hfill), hread.trans hafter, ?_⟩
    have hone : read.buffer.length = parser.buffer.length + 1 := by
      rw [← hbuffer]
      exact List.length_append
    rw [hlength, hone, Nat.add_assoc, Nat.add_comm 1]

/-- Looking ahead answers with the item at that distance, and consumes nothing. -/
theorem lookAhead_reads (distance : Nat) (parser : Parser (List Item) ε) :
    ∃ after, Answers (lookAhead distance) parser (parser.remaining.get distance) after ∧
      Takes [] parser after := by
  obtain ⟨after, hfill, hafter, hlength⟩ :=
    fill_keeps (distance + 1 - parser.buffer.length) parser
  refine ⟨after, ?_, hafter⟩
  have hread : distance < after.buffer.length := by omega
  have hitem : parser.remaining.get distance = after.buffer.getD distance after.endItem := by
    rw [hafter.remaining_eq, Stream'.nil_append_stream, remaining,
      Stream'.get_append_left _ _ _ hread, List.getD_eq_getElem?_getD,
      List.getElem?_eq_getElem hread, Option.getD_some]
  rw [hitem]
  exact (get_answers parser).bind (hfill.bind ((get_answers after).bind rfl))

/-- The binding power that is asked for is that of the next item, and nothing is
consumed. -/
theorem precedence_reads (parser : Parser (List Item) ε) :
    ∃ after, Answers precedence parser
        ((parser.infixPower? parser.remaining.head.token).getD 0) after ∧
      Takes [] parser after := by
  obtain ⟨after, hlook, hafter⟩ := lookAhead_reads 0 parser
  refine ⟨after, hlook.bind ((get_answers after).bind ?_), hafter⟩
  have hpower : parser.infixPower? = after.infixPower? := by
    unfold infixPower?
    rw [hafter.infixes]
  rw [hpower]
  rfl

/-- The next item is taken. -/
theorem takeItem_takes (parser : Parser (List Item) ε) :
    ∃ after, Answers takeItem parser parser.remaining.head after ∧
      parser.remaining = [parser.remaining.head] ++ₛ after.remaining ∧
      after.log = parser.log ∧ after.finalEnd = parser.finalEnd ∧ SameRules parser after := by
  cases hbuffer : parser.buffer with
  | nil =>
    obtain ⟨item, after, hpull, hsupply, hkept, hlog, hend, hrules⟩ := pull_takes parser
    have hbefore : parser.remaining = [item] ++ₛ after.remaining := by
      rw [remaining, hbuffer, hsupply, remaining, hkept, hbuffer]
      rfl
    have hhead : parser.remaining.head = item := by rw [hbefore]; rfl
    rw [hhead]
    refine ⟨after, ?_, hbefore, hlog, hend, hrules⟩
    refine (get_answers parser).bind ?_
    rw [hbuffer]
    exact hpull
  | cons item rest =>
    have hbefore : parser.remaining = [item] ++ₛ { parser with buffer := rest }.remaining := by
      rw [remaining, hbuffer]
      rfl
    have hhead : parser.remaining.head = item := by rw [hbefore]; rfl
    rw [hhead]
    refine ⟨{ parser with buffer := rest }, ?_, hbefore, rfl, rfl, rfl, rfl⟩
    refine (get_answers parser).bind ?_
    rw [hbuffer]
    rfl

/-- Recording the item that has just been taken completes its consumption. -/
theorem takes_record {parser taken : Parser (List Item) ε} {item : Item}
    (hremaining : parser.remaining = [item] ++ₛ taken.remaining)
    (hlog : taken.log = parser.log) (hend : taken.finalEnd = parser.finalEnd)
    (hrules : SameRules parser taken) : Takes [item] parser (taken.record (.consumed item)) where
  remaining_eq := hremaining
  log_eq := by rw [← hlog]; rfl
  finalEnd_eq := hend
  prefixes := hrules.prefixes
  infixes := hrules.infixes

section Head

variable {parser : Parser (List Item) ε} {item : Item} (hhead : parser.remaining.head = item)

include hhead

/-- The next item is consumed unless it reports a failure. -/
theorem advance_takes (hitem : item.isFailure = false) :
    ∃ after, Answers advance parser item after ∧ Takes [item] parser after := by
  obtain ⟨taken, htake, hremaining, hlog, hend, hrules⟩ := takeItem_takes parser
  rw [hhead] at htake hremaining
  refine ⟨taken.record (.consumed item), htake.bind ((modify_answers _ taken).bind ?_),
    takes_record hremaining hlog hend hrules⟩
  rw [hitem]
  rfl

/-- A failure is consumed and then reported. -/
theorem advance_rejects (hitem : item.isFailure = true) :
    ∃ after, Rejects advance parser (.ofFailure item) after ∧ Takes [item] parser after := by
  obtain ⟨taken, htake, hremaining, hlog, hend, hrules⟩ := takeItem_takes parser
  rw [hhead] at htake hremaining
  refine ⟨taken.record (.consumed item),
    htake.bind_rejects ((modify_answers _ taken).bind_rejects ?_),
    takes_record hremaining hlog hend hrules⟩
  rw [hitem]
  rfl

/-- Looking at the next item answers with it, and leaves it the next item. -/
theorem lookAhead_head :
    ∃ after, Answers (lookAhead 0) parser item after ∧ Takes [] parser after ∧
      after.remaining.head = item := by
  obtain ⟨after, hlook, hafter⟩ := lookAhead_reads 0 parser
  have hkept : after.remaining.head = item := by
    rw [← hhead, hafter.remaining_eq, Stream'.nil_append_stream]
  rw [← hhead]
  exact ⟨after, hlook, hafter, hkept.trans hhead.symm⟩

variable {expected : Token}

/-- A token that is not the next one is not matched, and nothing is consumed. -/
theorem matchToken_other (h : item.token ≠ expected) :
    ∃ after, Answers (matchToken expected) parser false after ∧ Takes [] parser after := by
  obtain ⟨after, hlook, hafter, -⟩ := lookAhead_head hhead
  refine ⟨after, hlook.bind ?_, hafter⟩
  rw [if_neg h]
  rfl

/-- The next token is matched and consumed unless it is that of a failure. -/
theorem matchToken_takes (h : item.token = expected) (hitem : item.isFailure = false) :
    ∃ after, Answers (matchToken expected) parser true after ∧ Takes [item] parser after := by
  obtain ⟨looked, hlook, hlooked, hkept⟩ := lookAhead_head hhead
  obtain ⟨after, hadvance, hafter⟩ := advance_takes hkept hitem
  refine ⟨after, hlook.bind ?_, hlooked.trans hafter⟩
  rw [if_pos h]
  exact hadvance.bind rfl

/-- A failure that is matched is consumed and reported. -/
theorem matchToken_rejects (h : item.token = expected) (hitem : item.isFailure = true) :
    ∃ after, Rejects (matchToken expected) parser (.ofFailure item) after ∧
      Takes [item] parser after := by
  obtain ⟨looked, hlook, hlooked, hkept⟩ := lookAhead_head hhead
  obtain ⟨after, hadvance, hafter⟩ := advance_rejects hkept hitem
  refine ⟨after, hlook.bind_rejects ?_, hlooked.trans hafter⟩
  rw [if_pos h]
  exact hadvance.bind _

/-- A token that is expected and not the next one is reported, and nothing is consumed. -/
theorem consume_other (h : item.token ≠ expected) (hitem : item.isFailure = false) :
    ∃ after, Rejects (consume expected) parser (expectedReport expected item) after ∧
      Takes [] parser after := by
  obtain ⟨after, hlook, hafter, -⟩ := lookAhead_head hhead
  refine ⟨after, hlook.bind_rejects ?_, hafter⟩
  have hother : ¬ (item.token = expected ∨ item.isFailure = true) := by simp [h, hitem]
  rw [if_neg hother]
  rfl

/-- The next token is consumed where it is expected, unless it is that of a failure. -/
theorem consume_takes (h : item.token = expected) (hitem : item.isFailure = false) :
    ∃ after, Answers (consume expected) parser item after ∧ Takes [item] parser after := by
  obtain ⟨looked, hlook, hlooked, hkept⟩ := lookAhead_head hhead
  obtain ⟨after, hadvance, hafter⟩ := advance_takes hkept hitem
  refine ⟨after, hlook.bind ?_, hlooked.trans hafter⟩
  rw [if_pos (Or.inl h)]
  exact hadvance

/-- A failure is consumed and reported, whatever is expected. -/
theorem consume_rejects (hitem : item.isFailure = true) :
    ∃ after, Rejects (consume expected) parser (.ofFailure item) after ∧
      Takes [item] parser after := by
  obtain ⟨looked, hlook, hlooked, hkept⟩ := lookAhead_head hhead
  obtain ⟨after, hadvance, hafter⟩ := advance_rejects hkept hitem
  refine ⟨after, hlook.bind_rejects ?_, hlooked.trans hafter⟩
  rw [if_pos (Or.inr hitem)]
  exact hadvance

end Head

end Parser

end LanguageKit
