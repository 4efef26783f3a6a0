import LanguageKit.Proofs.Padding
import Mathlib.Data.List.Forall2

/-!
# Looking ahead is transparent

A parser of a list works on the stream of its remaining items: looking ahead shows the
stream at a distance, every consumed item is its head, and what is refused stays where
it is. So a session with a parser brings the same answers wherever the parser, or a
parselet, looks ahead in between, and however far.
-/

namespace LanguageKit

namespace Parser

variable {ε : Type}

/-- A call of a parser by its user. -/
inductive Call (ε : Type) where
  /-- Looks at an item ahead. -/
  | lookAhead (distance : Nat)
  /-- Asks for the binding power of the next token. -/
  | precedence
  /-- Asks for the binding power a token is registered with. -/
  | infixPower (token : Token)
  /-- Consumes the next token if it is the expected one. -/
  | matchToken (expected : Token)
  /-- Consumes the next token, which must be the expected one. -/
  | consume (expected : Token)
  /-- Parses an expression with a minimum binding power. -/
  | expression (minimum : Int32)
  /-- Parses one expression that reaches to the end of the input. -/
  | parse
  /-- Registers how an expression can begin. -/
  | registerPrefix (token : Token) (parselet : Item → Script ε)
  /-- Registers how an expression can go on. -/
  | registerInfix (token : Token) (power : Int32) (parselet : ε → Item → Script ε)

/-- What a call answers. -/
inductive Reply (ε : Type) where
  /-- An item. -/
  | item (item : Item)
  /-- A binding power. -/
  | power (power : Int32)
  /-- The binding power of a rule, if there is one. -/
  | rule (power : Option Int32)
  /-- Whether a token was found. -/
  | found (found : Bool)
  /-- An expression. -/
  | expression (expression : ε)
  /-- Nothing. -/
  | nothing

/-- Carries out a call. -/
def Call.perform (budget : Nat) : Call ε → Parsing (List Item) ε (Reply ε)
  | lookAhead distance => do return .item (← Parser.lookAhead distance)
  | precedence => do return .power (← Parser.precedence)
  | infixPower token => do return .rule ((← get).infixPower? token)
  | matchToken expected => do return .found (← Parser.matchToken expected)
  | consume expected => do return .item (← Parser.consume expected)
  | expression minimum => do return .expression (← parseExpression budget minimum)
  | parse => do return .expression (← Parser.parse budget)
  | registerPrefix token parselet => do
    modify fun parser => parser.registerPrefix token parselet
    return .nothing
  | registerInfix token power parselet => do
    modify fun parser => parser.registerInfix token power parselet
    return .nothing

/-- The second call is the first, and what it registers is padded. -/
inductive Call.Padded : Call ε → Call ε → Prop where
  /-- Both are the same. -/
  | same (call : Call ε) : Padded call call
  /-- Both register how expressions begin. -/
  | registerPrefix (token : Token) {plain padded : Item → Script ε}
      (h : ∀ item, (plain item).Padded (padded item)) :
      Padded (.registerPrefix token plain) (.registerPrefix token padded)
  /-- Both register how expressions go on. -/
  | registerInfix (token : Token) (power : Int32) {plain padded : ε → Item → Script ε}
      (h : ∀ left item, (plain left item).Padded (padded left item)) :
      Padded (.registerInfix token power plain) (.registerInfix token power padded)

/-- A look at what comes next whose answer nobody uses. -/
inductive Glance where
  /-- Looks at an item ahead. -/
  | lookAhead (distance : Nat)
  /-- Asks for the binding power of the next token. -/
  | precedence

/-- The parser behind a glance. -/
def glance (parser : Parser (List Item) ε) : Glance → Parser (List Item) ε
  | .lookAhead distance => ((lookAhead distance).run.run parser).2
  | .precedence => (precedence.run.run parser).2

/-- A call, with the glances in front of it. -/
structure Turn (ε : Type) where
  /-- The looks at what comes next. -/
  glances : List Glance
  /-- The call. -/
  call : Call ε

/-- The answers to one turn after the other, and the parser behind them. Also behind a
call without an answer the session goes on. -/
def session (budget : Nat) :
    List (Turn ε) → Parser (List Item) ε →
      List (Except Interruption (Reply ε)) × Parser (List Item) ε
  | [], parser => ([], parser)
  | turn :: turns, parser =>
    let ran := (turn.call.perform budget).run.run (turn.glances.foldl glance parser)
    let rest := session budget turns ran.2
    (ran.1 :: rest.1, rest.2)

/-- A parser that shows and consumes its remaining items in order, each of them once. -/
structure FirstInFirstOut (parser : Parser (List Item) ε) : Prop where
  /-- Looking ahead shows the item at that distance. -/
  lookAhead : ∀ distance, ∃ after,
    Answers (lookAhead distance) parser (parser.remaining.get distance) after ∧
      Takes [] parser after
  /-- The binding power asked for is that of the head. -/
  precedence : ∃ after,
    Answers precedence parser ((parser.infixPower? parser.remaining.head.token).getD 0) after ∧
      Takes [] parser after
  /-- What does not match stays. -/
  unmatched : ∀ expected, parser.remaining.head.token ≠ expected → ∃ after,
    Answers (matchToken expected) parser false after ∧ Takes [] parser after
  /-- What matches is the head, and is consumed. -/
  matched : ∀ expected, parser.remaining.head.token = expected →
    parser.remaining.head.isFailure = false → ∃ after,
      Answers (matchToken expected) parser true after ∧
        Takes [parser.remaining.head] parser after
  /-- A failure that matches is consumed and reported. -/
  matchedFailure : ∀ expected, parser.remaining.head.token = expected →
    parser.remaining.head.isFailure = true → ∃ after,
      Rejects (matchToken expected) parser (.ofFailure parser.remaining.head) after ∧
        Takes [parser.remaining.head] parser after
  /-- What is refused stays. -/
  refused : ∀ expected, parser.remaining.head.token ≠ expected →
    parser.remaining.head.isFailure = false → ∃ after,
      Rejects (consume expected) parser (expectedReport expected parser.remaining.head) after ∧
        Takes [] parser after
  /-- What is expected and there is consumed. -/
  consumed : ∀ expected, parser.remaining.head.token = expected →
    parser.remaining.head.isFailure = false → ∃ after,
      Answers (consume expected) parser parser.remaining.head after ∧
        Takes [parser.remaining.head] parser after
  /-- A failure is consumed and reported, whatever is expected. -/
  failure : ∀ expected, parser.remaining.head.isFailure = true → ∃ after,
    Rejects (consume expected) parser (.ofFailure parser.remaining.head) after ∧
      Takes [parser.remaining.head] parser after
  /-- Every call consumes items off the front. -/
  call : ∀ (call : Call ε) (budget : Nat), ∃ taken,
    Consumes taken parser ((call.perform budget).run.run parser).2

/-- A call and the same call with padded parselets keep step. -/
theorem Call.Padded.lockstep {call padding : Call ε} (h : call.Padded padding) (budget : Nat) :
    Lockstep (call.perform budget) (padding.perform budget) := by
  cases h with
  | registerPrefix token h =>
    exact (lockstep_registerPrefix token h).bind fun _ => lockstep_pure _
  | registerInfix token power h =>
    exact (lockstep_registerInfix token power h).bind fun _ => lockstep_pure _
  | same =>
    cases call with
    | lookAhead distance => exact (lockstep_lookAhead distance).bind fun _ => lockstep_pure _
    | precedence => exact lockstep_precedence.bind fun _ => lockstep_pure _
    | infixPower token =>
      refine lockstep_get fun plain padded hpair => ?_
      rw [hpair.infixPower?_eq]
      exact lockstep_pure _
    | matchToken expected => exact (lockstep_matchToken expected).bind fun _ => lockstep_pure _
    | consume expected => exact (lockstep_consume expected).bind fun _ => lockstep_pure _
    | expression minimum =>
      exact (lockstep_parseExpression budget minimum).bind fun _ => lockstep_pure _
    | parse => exact (lockstep_parse budget).bind fun _ => lockstep_pure _
    | registerPrefix token parselet =>
      exact (lockstep_registerPrefix token fun item => .refl _).bind fun _ => lockstep_pure _
    | registerInfix token power parselet =>
      exact (lockstep_registerInfix token power fun left item => .refl _).bind
        fun _ => lockstep_pure _

/-- Every parser of a list consumes first what comes first. -/
theorem firstInFirstOut (parser : Parser (List Item) ε) : parser.FirstInFirstOut where
  lookAhead distance := lookAhead_reads distance parser
  precedence := precedence_reads parser
  unmatched _ h := matchToken_other rfl h
  matched _ h hitem := matchToken_takes rfl h hitem
  matchedFailure _ h hitem := matchToken_rejects rfl h hitem
  refused _ h hitem := consume_other rfl h hitem
  consumed _ h hitem := consume_takes rfl h hitem
  failure _ hitem := consume_rejects rfl hitem
  call call budget := ((Call.Padded.same call).lockstep budget).consumes parser

/-- Glances consume nothing and change no rules. -/
theorem foldl_glance (glances : List Glance) (parser : Parser (List Item) ε) :
    Takes [] parser (glances.foldl glance parser) := by
  induction glances generalizing parser with
  | nil => exact .refl parser
  | cons first glances ih =>
    have hfirst : Takes [] parser (parser.glance first) := by
      cases first with
      | lookAhead distance =>
        obtain ⟨after, hlook, hafter⟩ := lookAhead_reads distance parser
        have hglance : parser.glance (.lookAhead distance) = after := congrArg Prod.snd hlook
        rwa [hglance]
      | precedence =>
        obtain ⟨after, hlook, hafter⟩ := precedence_reads parser
        have hglance : parser.glance .precedence = after := congrArg Prod.snd hlook
        rwa [hglance]
    exact hfirst.trans (ih (parser.glance first))

/-- Sessions with the same calls, up to the glances in front of them and the padding of
what they register, bring the same answers with parsers that cannot be told apart, and
leave two such parsers. -/
theorem session_alike (budget : Nat) {turns others : List (Turn ε)}
    (h : List.Forall₂ (fun turn other => turn.call.Padded other.call) turns others)
    {plain padded : Parser (List Item) ε} (hpair : Alike plain padded) :
    (session budget turns plain).1 = (session budget others padded).1 ∧
      Alike (session budget turns plain).2 (session budget others padded).2 ∧
      ∃ taken, Consumes taken plain (session budget turns plain).2 := by
  induction h generalizing plain padded with
  | nil => exact ⟨rfl, hpair, [], .refl plain⟩
  | @cons turn other turns others hcall hrest ih =>
    have hglances := foldl_glance turn.glances plain
    have hothers := foldl_glance other.glances padded
    obtain ⟨result, after, paddedAfter, taken, hrun, hpadded, hafter, htaken⟩ :=
      hcall.lockstep budget (hpair.takes hglances hothers)
    obtain ⟨hanswers, hend, more, hmore⟩ := ih hafter
    unfold session
    dsimp only
    rw [hrun, hpadded]
    exact ⟨congrArg _ hanswers, hend, _, (hglances.toConsumes.trans htaken).trans hmore⟩

/-- Looking ahead is transparent, and items are consumed first in, first out. Every
parser of a list, also one that a parselet is working with, shows and consumes its
remaining items in order. A session with a new parser takes a front of the items of the
list, and keeps the end of the input at the largest end of them all. Looks ahead, at any
distance, and questions for a binding power, whether in front of the calls or inside of
what they register, change nothing of the answers, nor of what is left. -/
theorem lookahead_is_transparent (items : List Item) (budget : Nat) (turns : List (Turn ε)) :
    (∀ parser : Parser (List Item) ε, parser.FirstInFirstOut) ∧
      (∃ taken, Consumes taken (ofSource items) (session budget turns (ofSource items)).2) ∧
      (session budget turns (ofSource items)).2.finalEnd = Item.largestEnd items ∧
      ∀ others, List.Forall₂ (fun turn other => turn.call.Padded other.call) turns others →
        (session budget others (ofSource items)).1 = (session budget turns (ofSource items)).1 ∧
        (session budget others (ofSource items)).2.remaining =
          (session budget turns (ofSource items)).2.remaining := by
  have hsame : List.Forall₂ (fun turn other : Turn ε => turn.call.Padded other.call) turns turns :=
    List.forall₂_same.mpr fun turn _ => .same turn.call
  obtain ⟨-, -, taken, htaken⟩ := session_alike budget hsame (Alike.refl (ofSource items))
  refine ⟨firstInFirstOut, ⟨taken, htaken⟩, ?_, fun others hothers => ?_⟩
  · rw [htaken.finalEnd_eq]
    exact Nat.max_eq_right (Nat.zero_le _)
  · obtain ⟨hanswers, hend, -⟩ := session_alike budget hothers (Alike.refl (ofSource items))
    exact ⟨hanswers.symm, hend.remaining_eq.symm⟩

/-- A parselet that reads the token behind the first one. -/
def pairing (_ : Item) : Script Nat := .thenConsume ⟨"b"⟩ fun _ => .accept 1

/-- Parses a pair, and then expects something else. -/
def pairingTurns : List (Turn Nat) :=
  [⟨[], .registerPrefix ⟨"a"⟩ pairing⟩, ⟨[], .parse⟩, ⟨[], .consume ⟨"c"⟩⟩]

/-- The same session, where everybody looks far ahead first. -/
def cautiousTurns : List (Turn Nat) :=
  [⟨[.lookAhead 7], .registerPrefix ⟨"a"⟩ fun item =>
      .lookAhead 5 fun _ => .precedence fun _ => pairing item⟩,
    ⟨[.precedence, .lookAhead 1], .parse⟩, ⟨[.lookAhead 2], .consume ⟨"c"⟩⟩]

/-- In both sessions a pair is parsed, and what is expected behind it is missed at its
end. -/
theorem lookahead_is_transparent_pairing :
    List.Forall₂ (fun turn other => turn.call.Padded other.call) pairingTurns cautiousTurns ∧
      (session 2 cautiousTurns (ofSource [⟨⟨"a"⟩, "a", ⟨0, 1⟩⟩, ⟨⟨"b"⟩, "b", ⟨1, 2⟩⟩])).1 =
        [.ok .nothing, .ok (.expression 1),
          .error (.rejected (expectedReport ⟨"c"⟩ ⟨.endOfInput, "", ⟨2, 2⟩⟩))] := by
  have hpadded : List.Forall₂ (fun turn other => turn.call.Padded other.call)
      pairingTurns cautiousTurns :=
    .cons (.registerPrefix _ fun item => .askAhead 5 fun _ => .askPrecedence fun _ => .refl _)
      (.cons (.same _) (.cons (.same _) .nil))
  refine ⟨hpadded, ?_⟩
  rw [((lookahead_is_transparent _ 2 _).2.2.2 _ hpadded).1]
  rfl

end Parser

end LanguageKit
