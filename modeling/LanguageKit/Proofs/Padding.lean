import LanguageKit.Proofs.RemainingItems

/-!
# Padded scripts

A script is padded by asking it to look ahead, or for the binding power of the next
token, in more places than before. Two parsers whose rules differ by nothing but such
padding, and which have the same stream ahead of them, cannot be told apart: however
far each of them has read in advance, every operation brings the same with both,
consumes the same front of the stream, and leaves two parsers of this kind again.
-/

namespace LanguageKit

variable {ε : Type}

/-- The second script does what the first does, and looks ahead, or asks for the
binding power of the next token, in some more places. What it registers may be padded
too. -/
inductive Script.Padded : Script ε → Script ε → Prop where
  /-- Both end with the same. -/
  | done (result : Except Diagnostic ε) : Padded (.done result) (.done result)
  /-- Both parse an expression. -/
  | expression (minimum : Int32) {plain padded : Except Diagnostic ε → Script ε}
      (h : ∀ answer, Padded (plain answer) (padded answer)) :
      Padded (.expression minimum plain) (.expression minimum padded)
  /-- Both parse expressions with a token between each two of them. -/
  | separated (minimum : Int32) (separator : Token)
      {plain padded : Except Diagnostic (List ε) → Script ε}
      (h : ∀ answer, Padded (plain answer) (padded answer)) :
      Padded (.separated minimum separator plain) (.separated minimum separator padded)
  /-- Both consume a token if it comes next. -/
  | matchToken (expected : Token) {plain padded : Except Diagnostic Bool → Script ε}
      (h : ∀ answer, Padded (plain answer) (padded answer)) :
      Padded (.matchToken expected plain) (.matchToken expected padded)
  /-- Both consume a token. -/
  | consume (expected : Token) {plain padded : Except Diagnostic Item → Script ε}
      (h : ∀ answer, Padded (plain answer) (padded answer)) :
      Padded (.consume expected plain) (.consume expected padded)
  /-- Both ask for the binding power of the next token. -/
  | precedence {plain padded : Int32 → Script ε}
      (h : ∀ answer, Padded (plain answer) (padded answer)) :
      Padded (.precedence plain) (.precedence padded)
  /-- Both look ahead. -/
  | lookAhead (distance : Nat) {plain padded : Item → Script ε}
      (h : ∀ answer, Padded (plain answer) (padded answer)) :
      Padded (.lookAhead distance plain) (.lookAhead distance padded)
  /-- Both ask for the binding power a token is registered with. -/
  | infixPower (token : Token) {plain padded : Option Int32 → Script ε}
      (h : ∀ answer, Padded (plain answer) (padded answer)) :
      Padded (.infixPower token plain) (.infixPower token padded)
  /-- Both register how an expression can begin. -/
  | registerPrefix (token : Token) {plain padded : Item → Script ε} {rest more : Script ε}
      (hparselet : ∀ item, Padded (plain item) (padded item)) (hrest : Padded rest more) :
      Padded (.registerPrefix token plain rest) (.registerPrefix token padded more)
  /-- Both register how an expression can go on. -/
  | registerInfix (token : Token) (power : Int32) {plain padded : ε → Item → Script ε}
      {rest more : Script ε} (hparselet : ∀ left item, Padded (plain left item) (padded left item))
      (hrest : Padded rest more) :
      Padded (.registerInfix token power plain rest) (.registerInfix token power padded more)
  /-- The second asks for the binding power of the next token as well. -/
  | askPrecedence {plain : Script ε} {padded : Int32 → Script ε}
      (h : ∀ answer, Padded plain (padded answer)) : Padded plain (.precedence padded)
  /-- The second looks ahead as well. -/
  | askAhead (distance : Nat) {plain : Script ε} {padded : Item → Script ε}
      (h : ∀ answer, Padded plain (padded answer)) : Padded plain (.lookAhead distance padded)

/-- A script is padded with nothing. -/
theorem Script.Padded.refl (script : Script ε) : Padded script script := by
  induction script with
  | done result => exact .done result
  | expression minimum resume ih => exact .expression minimum ih
  | separated minimum separator resume ih => exact .separated minimum separator ih
  | matchToken expected resume ih => exact .matchToken expected ih
  | consume expected resume ih => exact .consume expected ih
  | precedence resume ih => exact .precedence ih
  | lookAhead distance resume ih => exact .lookAhead distance ih
  | infixPower token resume ih => exact .infixPower token ih
  | registerPrefix token parselet rest hparselet hrest =>
    exact .registerPrefix token hparselet hrest
  | registerInfix token power parselet rest hparselet hrest =>
    exact .registerInfix token power hparselet hrest

/-- The second rule is the first, padded. -/
structure InfixRule.Padded (plain padded : InfixRule ε) : Prop where
  /-- The tokens bind equally tightly. -/
  power_eq : plain.power = padded.power
  /-- What is done is the same but for the padding. -/
  parselet : ∀ left item, (plain.parselet left item).Padded (padded.parselet left item)

/-- Two registries have rules for the same tokens, and these rules are related. -/
def Registry.Related {α : Type} (related : α → α → Prop) (plain padded : Registry α) : Prop :=
  ∀ token, Option.Rel related (plain.find? token) (padded.find? token)

/-- Registering related rules keeps registries related. -/
theorem Registry.Related.put {α : Type} {related : α → α → Prop} {plain padded : Registry α}
    (h : Registry.Related related plain padded) (token : Token) {rule other : α}
    (hrule : related rule other) :
    Registry.Related related (plain.put token rule) (padded.put token other) := by
  intro asked
  by_cases hasked : asked = token
  · rw [hasked, Registry.find?_put_self, Registry.find?_put_self]
    exact .some hrule
  · rw [Registry.find?_put_of_ne hasked, Registry.find?_put_of_ne hasked]
    exact h asked

namespace Parser

variable {α β : Type}

/-- Two parsers that cannot be told apart: they have the same stream ahead of them and
have recorded the same, and the rules of the second are those of the first, padded. -/
structure Alike (plain padded : Parser (List Item) ε) : Prop where
  /-- The items that have not been consumed. -/
  remaining_eq : plain.remaining = padded.remaining
  /-- What has been recorded. -/
  log_eq : plain.log = padded.log
  /-- How expressions can begin. -/
  prefixes : plain.prefixes.Related (fun parselet other =>
    ∀ item, (parselet item).Padded (other item)) padded.prefixes
  /-- How expressions can go on. -/
  infixes : plain.infixes.Related InfixRule.Padded padded.infixes

/-- A parser cannot be told apart from itself. -/
theorem Alike.refl (parser : Parser (List Item) ε) : Alike parser parser where
  remaining_eq := rfl
  log_eq := rfl
  prefixes token := by
    cases parser.prefixes.find? token with
    | none => exact .none
    | some parselet => exact .some fun item => .refl _
  infixes token := by
    cases parser.infixes.find? token with
    | none => exact .none
    | some rule => exact .some ⟨rfl, fun left item => .refl _⟩

variable {plain padded after other : Parser (List Item) ε}

/-- Parsers that cannot be told apart still cannot when both have consumed the same. -/
theorem Alike.takes (h : Alike plain padded) {taken : List Item}
    (hplain : Takes taken plain after) (hpadded : Takes taken padded other) :
    Alike after other where
  remaining_eq := Stream'.append_right_injective taken _ _
    (hplain.remaining_eq.symm.trans (h.remaining_eq.trans hpadded.remaining_eq))
  log_eq := by rw [hplain.log_eq, hpadded.log_eq, h.log_eq]
  prefixes := by rw [hplain.prefixes, hpadded.prefixes]; exact h.prefixes
  infixes := by rw [hplain.infixes, hpadded.infixes]; exact h.infixes

/-- A token is registered with the same binding power. -/
theorem Alike.infixPower?_eq (h : Alike plain padded) (token : Token) :
    plain.infixPower? token = padded.infixPower? token := by
  unfold infixPower?
  have hrule := h.infixes token
  revert hrule
  generalize plain.infixes.find? token = rule
  generalize padded.infixes.find? token = paddedRule
  rintro (⟨hrule⟩ | _)
  · exact congrArg some hrule.power_eq
  · rfl

/-- With parsers that cannot be told apart, two operations bring the same, consume the
same front of the stream and leave parsers that cannot be told apart. -/
def Lockstep (operation padding : Parsing (List Item) ε α) : Prop :=
  ∀ ⦃plain padded : Parser (List Item) ε⦄, Alike plain padded →
    ∃ result after other taken, operation.run.run plain = (result, after) ∧
      padding.run.run padded = (result, other) ∧ Alike after other ∧ Consumes taken plain after

/-- Answering right away keeps step. -/
theorem lockstep_pure (answer : α) :
    Lockstep (Pure.pure answer : Parsing (List Item) ε α) (Pure.pure answer) :=
  fun plain padded h => ⟨.ok answer, plain, padded, [], rfl, rfl, h, .refl plain⟩

/-- Interrupting right away keeps step. -/
theorem lockstep_throw (interruption : Interruption) :
    Lockstep (throw interruption : Parsing (List Item) ε α) (throw interruption) :=
  fun plain padded h => ⟨.error interruption, plain, padded, [], rfl, rfl, h, .refl plain⟩

/-- Operations in a row keep step if the single ones do. -/
theorem Lockstep.bind {operation padding : Parsing (List Item) ε α}
    {next nextPadding : α → Parsing (List Item) ε β} (h : Lockstep operation padding)
    (hnext : ∀ answer, Lockstep (next answer) (nextPadding answer)) :
    Lockstep (operation >>= next) (padding >>= nextPadding) := by
  intro plain padded hpair
  obtain ⟨result, middle, paddedMiddle, taken, hplain, hpadded, hmiddle, htaken⟩ := h hpair
  rw [run_bind, run_bind, hplain, hpadded]
  cases result with
  | error interruption =>
    exact ⟨.error interruption, middle, paddedMiddle, taken, rfl, rfl, hmiddle, htaken⟩
  | ok answer =>
    obtain ⟨result, after, other, more, hafter, hother, hend, hmore⟩ := hnext answer hmiddle
    exact ⟨result, after, other, taken ++ more, hafter, hother, hend, htaken.trans hmore⟩

/-- Catching diagnostics keeps step. -/
theorem Lockstep.attempt {operation padding : Parsing (List Item) ε α}
    (h : Lockstep operation padding) : Lockstep (attempt operation) (attempt padding) := by
  intro plain padded hpair
  obtain ⟨result, after, other, taken, hplain, hpadded, hend, htaken⟩ := h hpair
  rw [run_attempt, run_attempt, hplain, hpadded]
  obtain (_ | _ | _) | answer := result <;>
    exact ⟨_, after, other, taken, rfl, rfl, hend, htaken⟩

/-- What depends on the parser keeps step if it does with parsers that cannot be told
apart. -/
theorem lockstep_get {next nextPadding : Parser (List Item) ε → Parsing (List Item) ε α}
    (h : ∀ plain padded, Alike plain padded → Lockstep (next plain) (nextPadding padded)) :
    Lockstep (get >>= next) (get >>= nextPadding) := by
  intro plain padded hpair
  rw [(get_answers plain).run_bind, (get_answers padded).run_bind]
  exact h plain padded hpair hpair

/-- Registering how expressions begin keeps step. -/
theorem lockstep_registerPrefix (token : Token) {parselet padding : Item → Script ε}
    (h : ∀ item, (parselet item).Padded (padding item)) :
    Lockstep (modify fun parser => parser.registerPrefix token parselet)
      (modify fun parser => parser.registerPrefix token padding) :=
  fun plain padded hpair => ⟨.ok (), plain.registerPrefix token parselet,
    padded.registerPrefix token padding, [], rfl, rfl,
    ⟨hpair.remaining_eq, hpair.log_eq, hpair.prefixes.put token h, hpair.infixes⟩,
    ⟨rfl, (Consumes.refl plain).log_eq, rfl⟩⟩

/-- Registering how expressions go on keeps step. -/
theorem lockstep_registerInfix (token : Token) (power : Int32)
    {parselet padding : ε → Item → Script ε}
    (h : ∀ left item, (parselet left item).Padded (padding left item)) :
    Lockstep (modify fun parser => parser.registerInfix token power parselet)
      (modify fun parser => parser.registerInfix token power padding) :=
  fun plain padded hpair => ⟨.ok (), plain.registerInfix token power parselet,
    padded.registerInfix token power padding, [], rfl, rfl,
    ⟨hpair.remaining_eq, hpair.log_eq, hpair.prefixes, hpair.infixes.put token ⟨rfl, h⟩⟩,
    ⟨rfl, (Consumes.refl plain).log_eq, rfl⟩⟩

/-- Looking ahead keeps step. -/
theorem lockstep_lookAhead (distance : Nat) :
    Lockstep (lookAhead (ε := ε) (σ := List Item) distance) (lookAhead distance) := by
  intro plain padded hpair
  obtain ⟨after, hlook, hafter⟩ := lookAhead_reads distance plain
  obtain ⟨other, hpadded, hother⟩ := lookAhead_reads distance padded
  rw [← hpair.remaining_eq] at hpadded
  exact ⟨_, after, other, [], hlook, hpadded, hpair.takes hafter hother, hafter.toConsumes⟩

/-- Looking ahead with the second parser alone keeps step. -/
theorem Lockstep.askAhead {operation : Parsing (List Item) ε α}
    {padding : Item → Parsing (List Item) ε α} (h : ∀ answer, Lockstep operation (padding answer))
    (distance : Nat) : Lockstep operation (lookAhead distance >>= padding) := by
  intro plain padded hpair
  obtain ⟨other, hlook, hother⟩ := lookAhead_reads distance padded
  rw [hlook.run_bind]
  exact h _ (hpair.takes (.refl plain) hother)

/-- Asking the second parser alone for the binding power of the next token keeps step. -/
theorem Lockstep.askPrecedence {operation : Parsing (List Item) ε α}
    {padding : Int32 → Parsing (List Item) ε α}
    (h : ∀ answer, Lockstep operation (padding answer)) :
    Lockstep operation (precedence >>= padding) := by
  intro plain padded hpair
  obtain ⟨other, hlook, hother⟩ := precedence_reads padded
  rw [hlook.run_bind]
  exact h _ (hpair.takes (.refl plain) hother)

/-- Consuming the next item keeps step. -/
theorem lockstep_advance : Lockstep (advance (ε := ε) (σ := List Item)) advance := by
  intro plain padded hpair
  have hhead : padded.remaining.head = plain.remaining.head := by rw [hpair.remaining_eq]
  cases hitem : plain.remaining.head.isFailure with
  | false =>
    obtain ⟨after, hplain, hafter⟩ := advance_takes rfl hitem
    obtain ⟨other, hpadded, hother⟩ := advance_takes hhead hitem
    exact ⟨_, after, other, _, hplain, hpadded, hpair.takes hafter hother, hafter.toConsumes⟩
  | true =>
    obtain ⟨after, hplain, hafter⟩ := advance_rejects rfl hitem
    obtain ⟨other, hpadded, hother⟩ := advance_rejects hhead hitem
    exact ⟨_, after, other, _, hplain, hpadded, hpair.takes hafter hother, hafter.toConsumes⟩

/-- Matching a token keeps step. -/
theorem lockstep_matchToken (expected : Token) :
    Lockstep (matchToken (ε := ε) (σ := List Item) expected) (matchToken expected) := by
  refine (lockstep_lookAhead 0).bind fun ahead => ?_
  split
  · exact lockstep_advance.bind fun _ => lockstep_pure true
  · exact lockstep_pure false

/-- Consuming an expected token keeps step. -/
theorem lockstep_consume (expected : Token) :
    Lockstep (consume (ε := ε) (σ := List Item) expected) (consume expected) := by
  refine (lockstep_lookAhead 0).bind fun ahead => ?_
  split
  · exact lockstep_advance
  · exact lockstep_throw _

/-- Asking for the binding power of the next token keeps step. -/
theorem lockstep_precedence : Lockstep (precedence (ε := ε) (σ := List Item)) precedence := by
  refine (lockstep_lookAhead 0).bind fun ahead => lockstep_get fun plain padded hpair => ?_
  rw [hpair.infixPower?_eq]
  exact lockstep_pure _

section Expressions

variable {expression : Int32 → Parsing (List Item) ε ε}
  (hexpression : ∀ minimum, Lockstep (expression minimum) (expression minimum))

include hexpression

/-- Parsing expressions with separators keeps step if parsing one does. -/
theorem lockstep_separated (minimum : Int32) (separator : Token) (budget : Nat)
    (members : Array ε) :
    Lockstep (separated expression minimum separator budget members)
      (separated expression minimum separator budget members) := by
  induction budget generalizing members with
  | zero => exact lockstep_throw _
  | succ budget ih =>
    refine (hexpression minimum).bind fun member => ?_
    refine (lockstep_matchToken separator).bind fun found => ?_
    split
    · exact ih _
    · exact lockstep_pure _

/-- Carrying out a script and the padded script keeps step. -/
theorem Lockstep.play {script padding : Script ε} (h : script.Padded padding) (budget : Nat) :
    Lockstep (play expression budget script) (play expression budget padding) := by
  induction h with
  | done result =>
    cases result with
    | ok answer => exact lockstep_pure answer
    | error report => exact lockstep_throw _
  | expression minimum h ih => exact (hexpression minimum).attempt.bind ih
  | separated minimum separator h ih =>
    exact (lockstep_separated hexpression minimum separator budget #[]).attempt.bind ih
  | matchToken expected h ih => exact (lockstep_matchToken expected).attempt.bind ih
  | consume expected h ih => exact (lockstep_consume expected).attempt.bind ih
  | precedence h ih => exact lockstep_precedence.bind ih
  | lookAhead distance h ih => exact (lockstep_lookAhead distance).bind ih
  | infixPower token h ih =>
    refine lockstep_get fun plain padded hpair => ?_
    rw [hpair.infixPower?_eq]
    exact ih _
  | registerPrefix token hparselet hrest _ ih =>
    exact (lockstep_registerPrefix token hparselet).bind fun _ => ih
  | registerInfix token power hparselet hrest _ ih =>
    exact (lockstep_registerInfix token power hparselet).bind fun _ => ih
  | askPrecedence h ih => exact Lockstep.askPrecedence ih
  | askAhead distance h ih => exact Lockstep.askAhead ih distance

/-- Reading the beginning of an expression keeps step. -/
theorem lockstep_begin (budget : Nat) :
    Lockstep (begin expression budget) (begin expression budget) := by
  refine lockstep_advance.bind fun item => lockstep_get fun plain padded hpair => ?_
  have hrule := hpair.prefixes item.token
  revert hrule
  generalize plain.prefixes.find? item.token = rule
  generalize padded.prefixes.find? item.token = paddedRule
  rintro (⟨hrule⟩ | _)
  · exact Lockstep.play hexpression (hrule item) budget
  · exact lockstep_throw _

/-- Going on with an expression keeps step. -/
theorem lockstep_extend (budget : Nat) (left : ε) :
    Lockstep (extend expression budget left) (extend expression budget left) := by
  refine lockstep_advance.bind fun item => lockstep_get fun plain padded hpair => ?_
  have hrule := hpair.infixes item.token
  revert hrule
  generalize plain.infixes.find? item.token = rule
  generalize padded.infixes.find? item.token = paddedRule
  rintro (⟨hrule⟩ | _)
  · exact Lockstep.play hexpression (hrule.parselet left item) budget
  · exact lockstep_throw _

/-- Folding in what binds more tightly than a minimum keeps step. -/
theorem lockstep_climb (playBudget : Nat) (minimum : Int32) (budget : Nat) (left : ε) :
    Lockstep (climb expression playBudget minimum budget left)
      (climb expression playBudget minimum budget left) := by
  induction budget generalizing left with
  | zero => exact lockstep_throw _
  | succ budget ih =>
    refine lockstep_precedence.bind fun power => ?_
    split
    · exact (lockstep_extend hexpression playBudget left).bind ih
    · exact lockstep_pure left

end Expressions

/-- Parsing an expression keeps step. -/
theorem lockstep_parseExpression (budget : Nat) (minimum : Int32) :
    Lockstep (parseExpression (ε := ε) (σ := List Item) budget minimum)
      (parseExpression budget minimum) := by
  induction budget generalizing minimum with
  | zero => exact lockstep_throw _
  | succ budget ih =>
    exact (lockstep_begin ih budget).bind fun left =>
      lockstep_climb ih budget minimum (budget + 1) left

/-- Parsing one expression that reaches to the end keeps step. -/
theorem lockstep_parse (budget : Nat) :
    Lockstep (parse (ε := ε) (σ := List Item) budget) (parse budget) :=
  (lockstep_parseExpression budget 0).bind fun expression =>
    (lockstep_consume .endOfInput).bind fun _ => lockstep_pure expression

/-- An operation that keeps step with itself consumes a front of the stream. -/
theorem Lockstep.consumes {operation : Parsing (List Item) ε α}
    (h : Lockstep operation operation) (parser : Parser (List Item) ε) :
    ∃ taken, Consumes taken parser (operation.run.run parser).2 := by
  obtain ⟨result, after, -, taken, hrun, -, -, htaken⟩ := h (Alike.refl parser)
  exact ⟨taken, by rw [hrun]; exact htaken⟩

end Parser

end LanguageKit
