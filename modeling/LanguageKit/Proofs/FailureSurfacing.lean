import LanguageKit.Proofs.RemainingItems
import LanguageKit.Proofs.SequenceEnd

/-!
# Scanning failures surface

A failure is seen by every look ahead and reported by none: it is reported where it is
consumed. If every parselet passes on the diagnostics it receives, that report is what
becomes of the whole parse, and nothing behind the failure is consumed. A scan that
failed ends with its failure, so that a parser of its items comes to no end of the input
without consuming it, whatever the rules.
-/

namespace LanguageKit

variable {ε : Type}

/-- The diagnostic a script receives instead of an answer. -/
def Script.received? {α : Type} : Except Diagnostic α → Option Diagnostic
  | .ok _ => none
  | .error report => some report

/-- The script passes on every diagnostic it receives, and so does all that it registers.
Once it has received one, it consumes nothing any more and ends with this diagnostic. -/
inductive Script.PassesOn : Option Diagnostic → Script ε → Prop where
  /-- It ends. -/
  | done (result : Except Diagnostic ε) : PassesOn none (.done result)
  /-- It ends with the diagnostic it has received. -/
  | giveUp (report : Diagnostic) : PassesOn (some report) (.done (.error report))
  /-- It parses an expression. -/
  | expression (minimum : Int32) {resume : Except Diagnostic ε → Script ε}
      (h : ∀ answer, PassesOn (received? answer) (resume answer)) :
      PassesOn none (.expression minimum resume)
  /-- It parses expressions with a token between each two of them. -/
  | separated (minimum : Int32) (separator : Token)
      {resume : Except Diagnostic (List ε) → Script ε}
      (h : ∀ answer, PassesOn (received? answer) (resume answer)) :
      PassesOn none (.separated minimum separator resume)
  /-- It consumes a token if it comes next. -/
  | matchToken (expected : Token) {resume : Except Diagnostic Bool → Script ε}
      (h : ∀ answer, PassesOn (received? answer) (resume answer)) :
      PassesOn none (.matchToken expected resume)
  /-- It consumes a token. -/
  | consume (expected : Token) {resume : Except Diagnostic Item → Script ε}
      (h : ∀ answer, PassesOn (received? answer) (resume answer)) :
      PassesOn none (.consume expected resume)
  /-- It asks for the binding power of the next token. -/
  | precedence {received : Option Diagnostic} {resume : Int32 → Script ε}
      (h : ∀ answer, PassesOn received (resume answer)) : PassesOn received (.precedence resume)
  /-- It looks ahead. -/
  | lookAhead {received : Option Diagnostic} (distance : Nat) {resume : Item → Script ε}
      (h : ∀ answer, PassesOn received (resume answer)) :
      PassesOn received (.lookAhead distance resume)
  /-- It asks for the binding power a token is registered with. -/
  | infixPower {received : Option Diagnostic} (token : Token)
      {resume : Option Int32 → Script ε} (h : ∀ answer, PassesOn received (resume answer)) :
      PassesOn received (.infixPower token resume)
  /-- It registers how an expression can begin. -/
  | registerPrefix {received : Option Diagnostic} (token : Token) {parselet : Item → Script ε}
      {rest : Script ε} (hparselet : ∀ item, PassesOn none (parselet item))
      (hrest : PassesOn received rest) : PassesOn received (.registerPrefix token parselet rest)
  /-- It registers how an expression can go on. -/
  | registerInfix {received : Option Diagnostic} (token : Token) (power : Int32)
      {parselet : ε → Item → Script ε} {rest : Script ε}
      (hparselet : ∀ left item, PassesOn none (parselet left item))
      (hrest : PassesOn received rest) :
      PassesOn received (.registerInfix token power parselet rest)

/-- The short forms pass on diagnostics. -/
theorem Script.PassesOn.passOn {α : Type} {resume : α → Script ε}
    (h : ∀ answer, (resume answer).PassesOn none) (answer : Except Diagnostic α) :
    (Script.passOn resume answer).PassesOn (received? answer) := by
  cases answer with
  | ok answer => exact h answer
  | error report => exact .giveUp report

/-- All rules that can be found in a registry are of a kind. -/
def Registry.All {α : Type} (kind : α → Prop) (registry : Registry α) : Prop :=
  ∀ token rule, registry.find? token = some rule → kind rule

/-- Registering a rule of the kind keeps all rules of the kind. -/
theorem Registry.All.put {α : Type} {kind : α → Prop} {registry : Registry α}
    (h : registry.All kind) (token : Token) {rule : α} (hrule : kind rule) :
    (registry.put token rule).All kind := by
  intro asked found hfound
  by_cases hasked : asked = token
  · rw [hasked, Registry.find?_put_self] at hfound
    cases hfound
    exact hrule
  · rw [Registry.find?_put_of_ne hasked] at hfound
    exact h asked found hfound

namespace Parser

variable {α β : Type}

/-- All that a parser has registered passes on diagnostics. -/
structure PassesOn (parser : Parser (List Item) ε) : Prop where
  /-- So do the beginnings of expressions. -/
  prefixes : parser.prefixes.All fun parselet => ∀ item, (parselet item).PassesOn none
  /-- So does what goes on with an expression. -/
  infixes : parser.infixes.All fun rule => ∀ left item, (rule.parselet left item).PassesOn none

/-- A new parser has registered nothing. -/
theorem passesOn_ofSource (items : List Item) :
    (ofSource items : Parser (List Item) ε).PassesOn where
  prefixes _ _ h := nomatch h
  infixes _ _ h := nomatch h

variable {parser after : Parser (List Item) ε}

/-- Taking items leaves the rules as they are. -/
theorem PassesOn.takes (h : parser.PassesOn) {taken : List Item}
    (htakes : Takes taken parser after) : after.PassesOn where
  prefixes := by rw [htakes.prefixes]; exact h.prefixes
  infixes := by rw [htakes.infixes]; exact h.infixes

/-- A parselet is registered that passes on diagnostics. -/
theorem PassesOn.registerPrefix (h : parser.PassesOn) (token : Token) {parselet : Item → Script ε}
    (hparselet : ∀ item, (parselet item).PassesOn none) :
    (parser.registerPrefix token parselet).PassesOn where
  prefixes := h.prefixes.put token hparselet
  infixes := h.infixes

/-- A rule is registered that passes on diagnostics. -/
theorem PassesOn.registerInfix (h : parser.PassesOn) (token : Token) (power : Int32)
    {parselet : ε → Item → Script ε}
    (hparselet : ∀ left item, (parselet left item).PassesOn none) :
    (parser.registerInfix token power parselet).PassesOn where
  prefixes := h.prefixes
  infixes := h.infixes.put token hparselet

/-- What becomes of the failures among the items that an operation takes. -/
inductive Surfaced : Option Diagnostic → List Item → Except Interruption α → Prop where
  /-- There is none. -/
  | clean {taken : List Item} (h : ∀ item ∈ taken, item.isFailure = false)
      (result : Except Interruption α) : Surfaced none taken result
  /-- There is one, which is the last item and is reported. -/
  | failed {front : List Item} (h : ∀ item ∈ front, item.isFailure = false) {item : Item}
      (hitem : item.isFailure = true) :
      Surfaced none (front ++ [item]) (.error (.rejected (.ofFailure item)))
  /-- A diagnostic has been received before, and is reported. -/
  | passedOn (report : Diagnostic) : Surfaced (some report) [] (.error (.rejected report))

/-- An interruption is that of what stands around it. -/
theorem Surfaced.error {taken : List Item} {interruption : Interruption}
    (h : Surfaced none taken (.error interruption : Except Interruption α)) :
    Surfaced none taken (.error interruption : Except Interruption β) := by
  cases h with
  | clean h => exact .clean h _
  | failed h hitem => exact .failed h hitem

/-- There is no failure among the items of an operation that answers. -/
theorem Surfaced.of_ok {taken : List Item} {answer : α}
    (h : Surfaced none taken (.ok answer : Except Interruption α)) :
    ∀ item ∈ taken, item.isFailure = false := by
  cases h with
  | clean h => exact h

/-- Items without a failure stand in front. -/
theorem Surfaced.append {taken more : List Item} {result : Except Interruption α}
    (h : ∀ item ∈ taken, item.isFailure = false) (hmore : Surfaced none more result) :
    Surfaced none (taken ++ more) result := by
  have hfront {others : List Item} (hothers : ∀ item ∈ others, item.isFailure = false) :
      ∀ item ∈ taken ++ others, item.isFailure = false :=
    fun item hitem => (List.mem_append.mp hitem).elim (h item) (hothers item)
  cases hmore with
  | clean hclean => exact .clean (hfront hclean) _
  | failed hothers hitem =>
    rw [← List.append_assoc]
    exact .failed (hfront hothers) hitem

/-- A failure is the last item that is taken, and is what is reported. -/
theorem Surfaced.of_failure {taken front back : List Item} {bad : Item}
    {result : Except Interruption α} (h : Surfaced none taken result)
    (htaken : taken = front ++ bad :: back) (hbad : bad.isFailure = true) :
    back = [] ∧ result = .error (.rejected (.ofFailure bad)) := by
  have hother {items : List Item} (hitems : ∀ item ∈ items, item.isFailure = false) :
      bad ∉ items := fun hmem => by
    rw [hitems bad hmem] at hbad
    contradiction
  cases h with
  | clean hclean => exact absurd (by rw [htaken]; simp) (hother hclean)
  | @failed others hothers item hitem =>
    rcases List.eq_nil_or_concat back with rfl | ⟨inner, last, rfl⟩
    · obtain ⟨-, heq⟩ := List.append_inj' htaken rfl
      cases heq
      exact ⟨rfl, rfl⟩
    · rw [List.concat_eq_append, ← List.cons_append, ← List.append_assoc] at htaken
      obtain ⟨rfl, -⟩ := List.append_inj' htaken rfl
      exact absurd (by simp) (hother hothers)

/-- An operation of a parser whose rules pass on diagnostics reports the failure it
takes, or the diagnostic that has been received before it began. -/
def Surfaces (received : Option Diagnostic) (operation : Parsing (List Item) ε α) : Prop :=
  ∀ ⦃parser : Parser (List Item) ε⦄, parser.PassesOn →
    ∃ result after taken, operation.run.run parser = (result, after) ∧ after.PassesOn ∧
      Consumes taken parser after ∧ Surfaced received taken result

/-- Answering right away takes nothing. -/
theorem surfaces_pure (answer : α) :
    Surfaces none (Pure.pure answer : Parsing (List Item) ε α) :=
  fun parser h => ⟨.ok answer, parser, [], rfl, h, .refl parser, .clean (by simp) _⟩

/-- Interrupting right away takes nothing. -/
theorem surfaces_throw (interruption : Interruption) :
    Surfaces none (throw interruption : Parsing (List Item) ε α) :=
  fun parser h => ⟨.error interruption, parser, [], rfl, h, .refl parser, .clean (by simp) _⟩

variable {received : Option Diagnostic} {operation : Parsing (List Item) ε α}

/-- Failures surface in operations in a row. -/
theorem Surfaces.bind (h : Surfaces none operation) {next : α → Parsing (List Item) ε β}
    (hnext : ∀ answer, Surfaces none (next answer)) : Surfaces none (operation >>= next) := by
  intro parser hparser
  obtain ⟨result, middle, taken, hrun, hmiddle, htaken, hsurfaced⟩ := h hparser
  rw [run_bind, hrun]
  cases result with
  | error interruption =>
    exact ⟨.error interruption, middle, taken, rfl, hmiddle, htaken, hsurfaced.error⟩
  | ok answer =>
    obtain ⟨result, after, more, hnext, hafter, hmore, hrest⟩ := hnext answer hmiddle
    exact ⟨result, after, taken ++ more, hnext, hafter, htaken.trans hmore,
      .append hsurfaced.of_ok hrest⟩

/-- Failures surface where a diagnostic that is caught is passed on. -/
theorem Surfaces.attempt_bind (h : Surfaces none operation)
    {next : Except Diagnostic α → Parsing (List Item) ε β}
    (hnext : ∀ answer, Surfaces (Script.received? answer) (next answer)) :
    Surfaces none (attempt operation >>= next) := by
  intro parser hparser
  obtain ⟨result, middle, taken, hrun, hmiddle, htaken, hsurfaced⟩ := h hparser
  rw [run_bind, run_attempt, hrun]
  obtain (report | cut | _) | answer := result
  case ok =>
    obtain ⟨result, after, more, hnext, hafter, hmore, hrest⟩ := hnext (.ok answer) hmiddle
    exact ⟨result, after, taken ++ more, hnext, hafter, htaken.trans hmore,
      .append hsurfaced.of_ok hrest⟩
  case error.rejected =>
    obtain ⟨result, after, more, hnext, hafter, hmore, hrest⟩ := hnext (.error report) hmiddle
    cases hrest with
    | passedOn =>
      refine ⟨_, after, taken ++ [], hnext, hafter, htaken.trans hmore, ?_⟩
      rw [List.append_nil]
      exact hsurfaced.error
  all_goals exact ⟨_, middle, taken, rfl, hmiddle, htaken, hsurfaced.error⟩

/-- Failures surface behind an answer that takes nothing. -/
theorem Surfaces.of_answers {next : α → Parsing (List Item) ε β}
    (hanswer : ∀ parser : Parser (List Item) ε, parser.PassesOn →
      ∃ answer after, Answers operation parser answer after ∧ after.PassesOn ∧
        Consumes [] parser after)
    (hnext : ∀ answer, Surfaces received (next answer)) :
    Surfaces received (operation >>= next) := by
  intro parser hparser
  obtain ⟨answer, middle, hrun, hmiddle, hnone⟩ := hanswer parser hparser
  obtain ⟨result, after, taken, hnext, hafter, htaken, hsurfaced⟩ := hnext answer hmiddle
  rw [hrun.run_bind]
  exact ⟨result, after, taken, hnext, hafter, hnone.trans htaken, hsurfaced⟩

/-- Failures surface behind a look ahead. -/
theorem surfaces_lookAhead (distance : Nat) {next : Item → Parsing (List Item) ε β}
    (hnext : ∀ answer, Surfaces received (next answer)) :
    Surfaces received (lookAhead distance >>= next) := by
  refine Surfaces.of_answers (fun parser hparser => ?_) hnext
  obtain ⟨after, hlook, hafter⟩ := lookAhead_reads distance parser
  exact ⟨_, after, hlook, hparser.takes hafter, hafter.toConsumes⟩

/-- Failures surface behind a question for the binding power of the next token. -/
theorem surfaces_precedence {next : Int32 → Parsing (List Item) ε β}
    (hnext : ∀ answer, Surfaces received (next answer)) :
    Surfaces received (precedence >>= next) := by
  refine Surfaces.of_answers (fun parser hparser => ?_) hnext
  obtain ⟨after, hlook, hafter⟩ := precedence_reads parser
  exact ⟨_, after, hlook, hparser.takes hafter, hafter.toConsumes⟩

/-- Failures surface in what depends on the parser if they do with the rules it may
have. -/
theorem surfaces_get {next : Parser (List Item) ε → Parsing (List Item) ε β}
    (hnext : ∀ parser : Parser (List Item) ε, parser.PassesOn → Surfaces received (next parser)) :
    Surfaces received (get >>= next) := by
  intro parser hparser
  rw [(get_answers parser).run_bind]
  exact hnext parser hparser hparser

/-- Failures surface behind a registration. -/
theorem surfaces_modify {change : Parser (List Item) ε → Parser (List Item) ε}
    {next : Unit → Parsing (List Item) ε β}
    (hchange : ∀ parser : Parser (List Item) ε, parser.PassesOn → (change parser).PassesOn)
    (hnone : ∀ parser : Parser (List Item) ε, Consumes [] parser (change parser))
    (hnext : Surfaces received (next ())) : Surfaces received (modify change >>= next) :=
  Surfaces.of_answers (fun parser hparser =>
    ⟨(), change parser, modify_answers change parser, hchange parser hparser, hnone parser⟩)
    fun _ => hnext

/-- The next item is taken, and reported if it is a failure. -/
theorem surfaces_advance : Surfaces none (advance : Parsing (List Item) ε Item) := by
  intro parser hparser
  cases hitem : parser.remaining.head.isFailure with
  | false =>
    obtain ⟨after, hrun, hafter⟩ := advance_takes rfl hitem
    refine ⟨_, after, _, hrun, hparser.takes hafter, hafter.toConsumes, .clean ?_ _⟩
    rw [List.forall_mem_singleton]
    exact hitem
  | true =>
    obtain ⟨after, hrun, hafter⟩ := advance_rejects rfl hitem
    exact ⟨_, after, [] ++ [_], hrun, hparser.takes hafter, hafter.toConsumes,
      .failed (by simp) hitem⟩

/-- Failures surface where a token is matched. -/
theorem surfaces_matchToken (expected : Token) :
    Surfaces none (matchToken expected : Parsing (List Item) ε Bool) := by
  refine surfaces_lookAhead 0 fun ahead => ?_
  split
  · exact surfaces_advance.bind fun _ => surfaces_pure true
  · exact surfaces_pure false

/-- Failures surface where a token is expected. -/
theorem surfaces_consume (expected : Token) :
    Surfaces none (consume expected : Parsing (List Item) ε Item) := by
  refine surfaces_lookAhead 0 fun ahead => ?_
  split
  · exact surfaces_advance
  · exact surfaces_throw _

section Expressions

variable {expression : Int32 → Parsing (List Item) ε ε}
  (hexpression : ∀ minimum, Surfaces none (expression minimum))

include hexpression

/-- Failures surface in expressions with separators if they do in single ones. -/
theorem surfaces_separated (minimum : Int32) (separator : Token) (budget : Nat)
    (members : Array ε) :
    Surfaces none (separated expression minimum separator budget members) := by
  induction budget generalizing members with
  | zero => exact surfaces_throw _
  | succ budget ih =>
    refine (hexpression minimum).bind fun member => ?_
    refine (surfaces_matchToken separator).bind fun found => ?_
    split
    · exact ih _
    · exact surfaces_pure _

/-- Failures surface in a script that passes on what it receives. -/
theorem surfaces_play {script : Script ε} (h : script.PassesOn received) (budget : Nat) :
    Surfaces received (play expression budget script) := by
  induction h with
  | done result =>
    cases result with
    | ok answer => exact surfaces_pure answer
    | error report => exact surfaces_throw _
  | giveUp report => exact fun parser h => ⟨_, parser, [], rfl, h, .refl parser, .passedOn report⟩
  | expression minimum h ih => exact (hexpression minimum).attempt_bind ih
  | separated minimum separator h ih =>
    exact (surfaces_separated hexpression minimum separator budget #[]).attempt_bind ih
  | matchToken expected h ih => exact (surfaces_matchToken expected).attempt_bind ih
  | consume expected h ih => exact (surfaces_consume expected).attempt_bind ih
  | precedence h ih => exact surfaces_precedence ih
  | lookAhead distance h ih => exact surfaces_lookAhead distance ih
  | infixPower token h ih => exact surfaces_get fun parser _ => ih _
  | registerPrefix token hparselet hrest _ ih =>
    exact surfaces_modify (fun _ hparser => hparser.registerPrefix token hparselet)
      (fun parser => ⟨rfl, (Consumes.refl parser).log_eq, rfl⟩) ih
  | registerInfix token power hparselet hrest _ ih =>
    exact surfaces_modify (fun _ hparser => hparser.registerInfix token power hparselet)
      (fun parser => ⟨rfl, (Consumes.refl parser).log_eq, rfl⟩) ih

/-- Failures surface at the beginning of an expression. -/
theorem surfaces_begin (budget : Nat) : Surfaces none (begin expression budget) := by
  refine surfaces_advance.bind fun item => surfaces_get fun parser hparser => ?_
  cases hrule : parser.prefixes.find? item.token with
  | none => exact surfaces_throw _
  | some parselet => exact surfaces_play hexpression (hparser.prefixes _ _ hrule item) budget

/-- Failures surface where an expression goes on. -/
theorem surfaces_extend (budget : Nat) (left : ε) :
    Surfaces none (extend expression budget left) := by
  refine surfaces_advance.bind fun item => surfaces_get fun parser hparser => ?_
  cases hrule : parser.infixes.find? item.token with
  | none => exact surfaces_throw _
  | some rule => exact surfaces_play hexpression (hparser.infixes _ _ hrule left item) budget

/-- Failures surface however often an expression goes on. -/
theorem surfaces_climb (playBudget : Nat) (minimum : Int32) (budget : Nat) (left : ε) :
    Surfaces none (climb expression playBudget minimum budget left) := by
  induction budget generalizing left with
  | zero => exact surfaces_throw _
  | succ budget ih =>
    refine surfaces_precedence fun power => ?_
    split
    · exact (surfaces_extend hexpression playBudget left).bind ih
    · exact surfaces_pure left

end Expressions

/-- Failures surface in an expression. -/
theorem surfaces_parseExpression (budget : Nat) (minimum : Int32) :
    Surfaces none (parseExpression budget minimum : Parsing (List Item) ε ε) := by
  induction budget generalizing minimum with
  | zero => exact surfaces_throw _
  | succ budget ih =>
    exact (surfaces_begin ih budget).bind fun left =>
      surfaces_climb ih budget minimum (budget + 1) left

/-- Failures surface in an expression that reaches to the end of the input. -/
theorem surfaces_parse (budget : Nat) :
    Surfaces none (parse budget : Parsing (List Item) ε ε) :=
  (surfaces_parseExpression budget 0).bind fun expression =>
    (surfaces_consume .endOfInput).bind fun _ => surfaces_pure expression

/-- A parse that answers has consumed an end of the input, and no failure. -/
theorem consumes_of_parse (h : parser.PassesOn) {budget : Nat} {expression : ε}
    (hanswer : Answers (parse budget) parser expression after) :
    ∃ front final tail, parser.remaining = (front ++ [final]) ++ₛ tail ∧
      final.token = .endOfInput ∧ ∀ item ∈ front, item.isFailure = false := by
  obtain ⟨left, middle, hleft, hrest⟩ := hanswer.of_bind
  obtain ⟨final, last, hconsume, -⟩ := hrest.of_bind
  obtain ⟨result, other, front, hrun, -, hfront, hsurfaced⟩ := surfaces_parseExpression budget 0 h
  obtain ⟨rfl, rfl⟩ := Prod.mk.inj (hrun.symm.trans hleft)
  refine ⟨front, other.remaining.head, other.remaining.tail, ?_, ?_, hsurfaced.of_ok⟩
  · rw [Stream'.append_append_stream, Stream'.append_stream_head_tail]
    exact hfront.remaining_eq
  · -- consuming the end of the input answers where it comes next, and nowhere else
    by_contra hother
    cases hitem : other.remaining.head.isFailure with
    | false =>
      obtain ⟨_, hrejects, -⟩ := consume_other rfl hother hitem
      cases hrejects.symm.trans hconsume
    | true =>
      obtain ⟨_, hrejects, -⟩ := consume_rejects rfl hitem
      cases hrejects.symm.trans hconsume

/-- An end of the input with no failure in front of it does not stand in a stream where a
failure comes first. -/
theorem end_not_behind_failure {front others : List Item} {final bad : Item}
    {tail rest : Stream' Item} (h : (front ++ [final]) ++ₛ tail = (others ++ [bad]) ++ₛ rest)
    (hfinal : final.token = .endOfInput) (hfront : ∀ item ∈ front, item.isFailure = false)
    (hbad : bad.isFailure = true) (hothers : ∀ item ∈ others, item.token.isTerminal = false) :
    False := by
  rw [Stream'.append_append_stream, Stream'.append_append_stream] at h
  have hget (distance : Nat) := congrArg (fun stream => Stream'.get stream distance) h
  have hend := hget front.length
  have hfailure := hget others.length
  rw [Stream'.get_append_length] at hend hfailure
  change final = _ at hend
  change _ = bad at hfailure
  rcases Nat.lt_trichotomy front.length others.length with hlt | heq | hgt
  · -- the end of the input would be one of the items that are not final
    rw [Stream'.get_append_left _ _ _ hlt] at hend
    have hopen := hothers _ (List.getElem_mem hlt)
    rw [← hend, hfinal] at hopen
    contradiction
  · rw [heq, Stream'.get_append_length] at hend
    change final = bad at hend
    rw [← hend, Item.isFailure, hfinal] at hbad
    contradiction
  · -- the failure would be one of those in front of the end of the input
    rw [Stream'.get_append_left _ _ _ hgt] at hfailure
    have hclean := hfront _ (List.getElem_mem hgt)
    rw [hfailure, hbad] at hclean
    contradiction

/-- What becomes of the items an operation takes off the front of the stream: a failure
among them is the last one, and its report is the result. So there is none where the
operation answers. -/
def ReportsFailures (operation : Parsing (List Item) ε α) (parser : Parser (List Item) ε) :
    Prop :=
  ∃ taken, Consumes taken parser (operation.run.run parser).2 ∧
    (∀ front bad back, taken = front ++ bad :: back → bad.isFailure = true →
      back = [] ∧ (operation.run.run parser).1 = .error (.rejected
        { stage := .lexer, message := bad.lexeme, span := some bad.span, notes := [] })) ∧
    ∀ answer, (operation.run.run parser).1 = .ok answer →
      ∀ item ∈ taken, item.isFailure = false

/-- An operation in which failures surface reports them. -/
theorem Surfaces.reportsFailures (h : Surfaces none operation) (hparser : parser.PassesOn) :
    ReportsFailures operation parser := by
  obtain ⟨result, after, taken, hrun, -, htaken, hsurfaced⟩ := h hparser
  unfold ReportsFailures
  rw [hrun]
  refine ⟨taken, htaken, fun front bad back heq hbad => hsurfaced.of_failure heq hbad, ?_⟩
  rintro answer rfl
  exact hsurfaced.of_ok

/-- Failures of a scan surface through the parser. Where all that is registered passes on
the diagnostics it receives, parsing an expression, or a whole input, reports the failure
it consumes, consumes nothing behind it, and answers only if it has consumed none. So it
answers nowhere in front of the failure that a scan ended with. -/
theorem scanning_failures_surface {σ : Type} (parser : Parser (List Item) ε)
    (h : parser.PassesOn) :
    (∀ budget, ReportsFailures (parse budget) parser) ∧
      (∀ budget minimum, ReportsFailures (parseExpression budget minimum) parser) ∧
      ∀ (scanner : Scanner σ) (text : String) (requests : List Lexer.Request) (state : σ)
        (items : List Item) (last : Scan σ) (bad : Item),
        Scan.Yields scanner (Scan.ofLexer ((Lexer.ofText text).serveAll requests) state) items
          last →
        items.getLast? = some bad → bad.isFailure = true →
        ∀ front rest tail, items = front ++ rest → rest ≠ [] → parser.remaining = rest ++ₛ tail →
          ∀ budget expression, ((parse budget).run.run parser).1 ≠ .ok expression := by
  refine ⟨fun budget => (surfaces_parse budget).reportsFailures h,
    fun budget minimum => (surfaces_parseExpression budget minimum).reportsFailures h, ?_⟩
  intro scanner text requests state items last bad hyields hlast hbad front rest tail hitems
    hrest hremaining budget expression hok
  obtain ⟨work, hreads⟩ := hyields.reads
  obtain ⟨others, final, rfl, -, hothers⟩ :=
    hreads.endsOnce ((Lexer.sealed_ofText text).serveAll requests)
      (hreads.over (Nat.lt_succ_self _))
  rw [List.getLast?_concat] at hlast
  cases hlast
  -- what the parser has left of the scan ends with the failure, too
  obtain ⟨between, last, rfl⟩ := (List.eq_nil_or_concat rest).resolve_left hrest
  rw [List.concat_eq_append] at hitems hremaining
  rw [← List.append_assoc] at hitems
  obtain ⟨rfl, hsame⟩ := List.append_inj' hitems rfl
  cases hsame
  obtain ⟨taken, ending, behind, hstream, hending, htaken⟩ :=
    consumes_of_parse h (Prod.ext hok rfl : Answers (parse budget) parser expression _)
  refine end_not_behind_failure (hstream.symm.trans hremaining) hending htaken hbad ?_
  exact fun item hitem => hothers item (List.mem_append_right front hitem)

/-- Publishes the first letter, and fails at the second. -/
def fussy : Scanner Unit := fun _ =>
  .ask .next fun _ => .ask (.emit ⟨"a"⟩) fun _ =>
    .ask .next fun _ => .ask (.fail "odd letter") fun _ => .stop none

/-- What the fussy state brings for two letters. -/
def fussyItems : List Item := [⟨⟨"a"⟩, "a", ⟨0, 1⟩⟩, ⟨.failure, "odd letter", ⟨1, 2⟩⟩]

/-- A parser of these items, with rules also for the failure. -/
def hopeful : Parser (List Item) Nat :=
  ((ofSource fussyItems).registerPrefix ⟨"a"⟩ fun _ =>
    .lookAhead 1 fun _ => .thenMatch ⟨"b"⟩ fun _ => .accept 0).registerInfix
      .failure 10 fun left _ => .accept (left + 1)

/-- The hopeful parser reports the failure, and never answers. -/
theorem scanning_failures_surface_hopeful :
    (hopeful.PassesOn ∧ ∃ last,
      Scan.Yields fussy (Scan.ofLexer ((Lexer.ofText "a!").serveAll []) ()) fussyItems last) ∧
    ((parse 2).run.run hopeful).1 = .error (.rejected
      { stage := .lexer, message := "odd letter", span := some ⟨1, 2⟩, notes := [] }) ∧
    ∀ budget expression, ((parse budget).run.run hopeful).1 ≠ .ok expression := by
  have hrules : hopeful.PassesOn := by
    refine ((passesOn_ofSource _).registerPrefix ⟨"a"⟩ fun _ => ?_).registerInfix .failure 10
      fun _ _ => .done _
    exact .lookAhead 1 fun _ => .matchToken ⟨"b"⟩ (Script.PassesOn.passOn fun _ => .done _)
  obtain ⟨last, hyields⟩ : ∃ last, Scan.Yields fussy
      (Scan.ofLexer ((Lexer.ofText "a!").serveAll []) ()) fussyItems last :=
    ⟨_, .item (rfl : Scan.pull fussy 2 _ = _) (.item (rfl : Scan.pull fussy 1 _ = _)
      (.ended (rfl : Scan.pull fussy 1 _ = _)))⟩
  refine ⟨⟨hrules, last, hyields⟩, rfl, ?_⟩
  exact (scanning_failures_surface hopeful hrules).2.2 fussy "a!" [] () fussyItems last _ hyields
    rfl rfl [] fussyItems (Stream'.const hopeful.finalItem) rfl (List.cons_ne_nil _ _) rfl

end Parser

end LanguageKit
