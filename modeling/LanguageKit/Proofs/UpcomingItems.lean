import LanguageKit.Parser

/-!
# What a parser consumes next

The items a parser of a list is going to consume are those it has read in advance,
then those of the list, then ends of the input. Looking ahead only makes one of
these ends explicit, and consuming takes the first of the items. Neither touches
the rules.
-/

namespace LanguageKit

namespace Parser

section Answers

variable {σ ε α β : Type}

/-- Two operations in a row: the second goes on where the first has answered, and
does not happen when the first is interrupted. -/
theorem run_bind (operation : Parsing σ ε α) (next : α → Parsing σ ε β)
    (parser : Parser σ ε) :
    (operation >>= next).run.run parser =
      match operation.run.run parser with
      | (.ok answer, after) => (next answer).run.run after
      | (.error interruption, after) => (.error interruption, after) := by
  rw [ExceptT.run_bind, StateT.run_bind]
  obtain ⟨interruption | answer, after⟩ := operation.run.run parser <;> rfl

/-- An operation brings an answer and leaves a parser. -/
def Answers (operation : Parsing σ ε α) (parser : Parser σ ε) (answer : α)
    (after : Parser σ ε) : Prop :=
  operation.run.run parser = (.ok answer, after)

variable {operation : Parsing σ ε α} {next : α → Parsing σ ε β}
  {parser middle after : Parser σ ε} {answer : α} {final : β}

/-- What follows an operation goes on from its answer. -/
theorem Answers.run_bind (h : Answers operation parser answer after)
    (next : α → Parsing σ ε β) :
    (operation >>= next).run.run parser = (next answer).run.run after := by
  have hrun : operation.run.run parser = (.ok answer, after) := h
  rw [Parser.run_bind, hrun]

/-- Two operations in a row bring the answer of the second. -/
theorem Answers.bind (h : Answers operation parser answer middle)
    (hnext : Answers (next answer) middle final after) :
    Answers (operation >>= next) parser final after :=
  (h.run_bind next).trans hnext

/-- An operation that answers is not rejected. -/
theorem Answers.attempt (h : Answers operation parser answer after) :
    Answers (Parser.attempt operation) parser (.ok answer) after := by
  have hrun : operation.run.run parser = (.ok answer, after) := h
  unfold Answers Parser.attempt
  rw [ExceptT.run_mk, StateT.run_bind, hrun]
  rfl

end Answers

section Lists

variable {ε : Type}

/-- The items a parser of a list has not consumed, oldest first. -/
def upcoming (parser : Parser (List Item) ε) : List Item := parser.buffer ++ parser.source

/-- The item a parser of a list consumes next. -/
def ahead (parser : Parser (List Item) ε) : Item := parser.upcoming.headD parser.endItem

/-- Two parsers have the same rules. -/
structure SameRules (parser after : Parser (List Item) ε) : Prop where
  /-- Expressions begin in the same ways. -/
  prefixes : after.prefixes = parser.prefixes
  /-- Expressions go on in the same ways. -/
  infixes : after.infixes = parser.infixes

/-- Looking at the next item only makes an end of the input explicit. -/
theorem lookAhead_answers (parser : Parser (List Item) ε) :
    ∃ after, Answers (lookAhead 0) parser parser.ahead after ∧
      after.upcoming = parser.ahead :: parser.upcoming.tail ∧ SameRules parser after := by
  obtain ⟨source, buffer, lastEnd, prefixes, infixes, log⟩ := parser
  cases buffer with
  | nil =>
    cases source with
    | nil => exact ⟨_, rfl, rfl, rfl, rfl⟩
    | cons item rest => exact ⟨_, rfl, rfl, rfl, rfl⟩
  | cons item rest =>
    have hread : 0 + 1 - (item :: rest).length = 0 := by
      rw [List.length_cons]
      omega
    refine ⟨⟨source, item :: rest, lastEnd, prefixes, infixes, log⟩, ?_, rfl, rfl, rfl⟩
    have hget : Answers (get : Parsing (List Item) ε _)
        ⟨source, item :: rest, lastEnd, prefixes, infixes, log⟩
        ⟨source, item :: rest, lastEnd, prefixes, infixes, log⟩
        ⟨source, item :: rest, lastEnd, prefixes, infixes, log⟩ := rfl
    refine hget.bind ?_
    dsimp only
    rw [hread]
    rfl

/-- The next item is taken, whether it was read in advance or not. -/
theorem takeItem_answers (parser : Parser (List Item) ε) :
    ∃ after, Answers takeItem parser parser.ahead after ∧
      after.upcoming = parser.upcoming.tail ∧ SameRules parser after := by
  obtain ⟨source, buffer, lastEnd, prefixes, infixes, log⟩ := parser
  cases buffer with
  | nil =>
    cases source with
    | nil => exact ⟨_, rfl, rfl, rfl, rfl⟩
    | cons item rest => exact ⟨_, rfl, rfl, rfl, rfl⟩
  | cons item rest => exact ⟨_, rfl, rfl, rfl, rfl⟩

/-- An item that reports no failure is consumed. -/
theorem advance_answers {parser : Parser (List Item) ε}
    (hahead : parser.ahead.isFailure = false) :
    ∃ after, Answers advance parser parser.ahead after ∧
      after.upcoming = parser.upcoming.tail ∧ SameRules parser after := by
  obtain ⟨taken, htake, hupcoming, hrules⟩ := takeItem_answers parser
  refine ⟨taken.record (.consumed parser.ahead), ?_, hupcoming, hrules.prefixes, hrules.infixes⟩
  refine htake.bind ?_
  rw [hahead]
  rfl

/-- The rules and the items ahead of a parser: it has these rules, and it is going to
consume these items and then an end of the input. -/
structure Awaits (prefixes : Registry (Item → Script ε)) (infixes : Registry (InfixRule ε))
    (items : List Item) (parser : Parser (List Item) ε) : Prop where
  /-- How expressions begin. -/
  prefixes_eq : parser.prefixes = prefixes
  /-- How expressions go on. -/
  infixes_eq : parser.infixes = infixes
  /-- What is going to be consumed. -/
  upcoming_eq : ∃ rest, parser.upcoming = items ++ rest ∧ ∀ item ∈ rest.head?, item.isEnd = true

variable {prefixes : Registry (Item → Script ε)} {infixes : Registry (InfixRule ε)}
  {items : List Item} {parser after : Parser (List Item) ε}

/-- The token of the first of some items, or the end of the input. -/
def nextToken (items : List Item) : Token := (items.head?.map Item.token).getD .endOfInput

/-- The item ahead is the first of those awaited. -/
theorem Awaits.ahead_cons {item : Item} (h : Awaits prefixes infixes (item :: items) parser) :
    parser.ahead = item := by
  obtain ⟨rest, hupcoming, -⟩ := h.upcoming_eq
  rw [ahead, hupcoming, List.cons_append, List.headD_cons]

/-- The token ahead is that of the first item awaited, or the end of the input. -/
theorem Awaits.token_ahead (h : Awaits prefixes infixes items parser) :
    parser.ahead.token = nextToken items := by
  cases items with
  | cons item items => rw [h.ahead_cons]; rfl
  | nil =>
    obtain ⟨rest, hupcoming, hend⟩ := h.upcoming_eq
    rw [ahead, hupcoming]
    cases rest with
    | nil => rfl
    | cons item rest => exact of_decide_eq_true (hend item rfl)

/-- Making the item ahead explicit changes nothing of what is awaited. -/
theorem Awaits.of_ahead (h : Awaits prefixes infixes items parser)
    (hupcoming : after.upcoming = parser.ahead :: parser.upcoming.tail)
    (hrules : SameRules parser after) : Awaits prefixes infixes items after := by
  refine ⟨hrules.prefixes.trans h.prefixes_eq, hrules.infixes.trans h.infixes_eq, ?_⟩
  obtain ⟨rest, hbefore, hend⟩ := h.upcoming_eq
  cases items with
  | cons item items =>
    refine ⟨rest, ?_, hend⟩
    rw [hupcoming, h.ahead_cons, hbefore, List.cons_append, List.tail_cons]
  | nil =>
    refine ⟨parser.ahead :: rest.tail, ?_, ?_⟩
    · rw [hupcoming, hbefore, List.nil_append, List.nil_append]
    · rintro item ⟨⟩
      exact decide_eq_true h.token_ahead

/-- Looking ahead changes nothing of what is awaited. -/
theorem Awaits.lookAhead (h : Awaits prefixes infixes items parser) :
    ∃ after, Answers (lookAhead 0) parser parser.ahead after ∧
      after.upcoming = parser.ahead :: parser.upcoming.tail ∧
      Awaits prefixes infixes items after := by
  obtain ⟨after, hanswer, hupcoming, hrules⟩ := lookAhead_answers parser
  exact ⟨after, hanswer, hupcoming, h.of_ahead hupcoming hrules⟩

/-- The power of the next token is that of its rule. -/
theorem Awaits.precedence (h : Awaits prefixes infixes items parser) :
    ∃ after, Answers precedence parser
      (((infixes.find? (nextToken items)).map InfixRule.power).getD 0) after ∧
      Awaits prefixes infixes items after := by
  obtain ⟨after, hanswer, -, hafter⟩ := h.lookAhead
  refine ⟨after, hanswer.bind ?_, hafter⟩
  have hpower : after.infixPower? parser.ahead.token =
      (infixes.find? (nextToken items)).map InfixRule.power := by
    rw [infixPower?, hafter.infixes_eq, h.token_ahead]
  rw [← hpower]
  rfl

/-- The first item awaited is consumed unless it reports a failure. -/
theorem Awaits.advance {item : Item} (h : Awaits prefixes infixes (item :: items) parser)
    (hitem : item.isFailure = false) :
    ∃ after, Answers advance parser item after ∧ Awaits prefixes infixes items after := by
  have hahead := h.ahead_cons
  obtain ⟨after, hanswer, hupcoming, hrules⟩ := advance_answers (hahead ▸ hitem)
  rw [hahead] at hanswer
  refine ⟨after, hanswer, hrules.prefixes.trans h.prefixes_eq,
    hrules.infixes.trans h.infixes_eq, ?_⟩
  obtain ⟨rest, hbefore, hend⟩ := h.upcoming_eq
  refine ⟨rest, ?_, hend⟩
  rw [hupcoming, hbefore, List.cons_append, List.tail_cons]

/-- The first item awaited is consumed where its token is expected. -/
theorem Awaits.consume {item : Item} (h : Awaits prefixes infixes (item :: items) parser)
    (hitem : item.isFailure = false) :
    ∃ after, Answers (consume item.token) parser item after ∧
      Awaits prefixes infixes items after := by
  obtain ⟨looked, hlook, -, hlooked⟩ := h.lookAhead
  obtain ⟨after, hadvance, hafter⟩ := hlooked.advance hitem
  refine ⟨after, hlook.bind ?_, hafter⟩
  rw [h.ahead_cons, if_pos (Or.inl rfl)]
  exact hadvance

/-- Behind all items awaited, an end of the input is consumed. -/
theorem Awaits.consume_endOfInput (h : Awaits prefixes infixes [] parser) :
    ∃ item after, Answers (Parser.consume .endOfInput) parser item after := by
  obtain ⟨looked, hlook, hupcoming, -⟩ := h.lookAhead
  have htoken : parser.ahead.token = .endOfInput := h.token_ahead
  have hlooked : looked.ahead = parser.ahead := by
    rw [Parser.ahead, hupcoming, List.headD_cons]
  have hfailure : looked.ahead.isFailure = false := by
    rw [hlooked, Item.isFailure, htoken]
    rfl
  obtain ⟨after, hadvance, -⟩ := advance_answers hfailure
  refine ⟨looked.ahead, after, hlook.bind ?_⟩
  rw [if_pos (Or.inl htoken)]
  exact hadvance

end Lists

end Parser

end LanguageKit
