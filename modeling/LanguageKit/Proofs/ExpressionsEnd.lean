import LanguageKit.Proofs.Budgets
import LanguageKit.Proofs.FailureSurfacing

/-!
# Every expression ends

An exhausted list reads as an endless run of ends of the input, and what a parser does with the
items of a list is up to its parselets. Still, parsing an expression ends if no end of the input
begins an expression or goes on with one, and if all parselets pass on the diagnostics they
receive. Each expression begins with an item that is consumed: either the item is open, that is,
no end of the input, and there is one less of those, or it is reported, and the report ends all
expressions around it. So the open items pay for the expressions, all but one.

To count the expressions, the source of a parser keeps account of how the parser was whenever
one of them began. The parser does not notice.
-/

namespace LanguageKit

variable {σ ε α β : Type}

/-- A source that keeps account of the expressions that are begun. -/
structure Accounted (σ ε : Type) where
  /-- Where items come from. -/
  source : σ
  /-- The parser as it was whenever an expression began, oldest first. -/
  starts : List (Parser σ ε)

/-- Reading from the source leaves the account as it is. -/
instance [ItemSource σ] : ItemSource (Accounted σ ε) where
  read accounted :=
    let (pulled, source) := ItemSource.read accounted.source
    (pulled, { accounted with source })
  takeEvents accounted :=
    let (events, source) := ItemSource.takeEvents accounted.source
    (events, { accounted with source })
  close accounted := ItemSource.close accounted.source

/-- The item is no end of the input. -/
def Item.isOpen (item : Item) : Bool := !item.isEnd

/-- All other items are ends of the input. -/
theorem Item.token_of_not_isOpen {item : Item} (h : item.isOpen = false) :
    item.token = .endOfInput := by
  simpa [isOpen, isEnd] using h

/-- No parselet that the script registers is for an end of the input. -/
def Script.SparesEnd : Script ε → Prop
  | .done _ => True
  | .expression _ resume => ∀ answer, (resume answer).SparesEnd
  | .separated _ _ resume => ∀ answer, (resume answer).SparesEnd
  | .matchToken _ resume => ∀ answer, (resume answer).SparesEnd
  | .consume _ resume => ∀ answer, (resume answer).SparesEnd
  | .precedence resume => ∀ answer, (resume answer).SparesEnd
  | .lookAhead _ resume => ∀ answer, (resume answer).SparesEnd
  | .infixPower _ resume => ∀ answer, (resume answer).SparesEnd
  | .registerPrefix token parselet rest =>
    token ≠ .endOfInput ∧ (∀ item, (parselet item).SparesEnd) ∧ rest.SparesEnd
  | .registerInfix token _ parselet rest =>
    token ≠ .endOfInput ∧ (∀ left item, (parselet left item).SparesEnd) ∧ rest.SparesEnd

/-- The short forms register nothing. -/
theorem Script.SparesEnd.passOn {resume : α → Script ε} (h : ∀ answer, (resume answer).SparesEnd)
    (answer : Except Diagnostic α) : (Script.passOn resume answer).SparesEnd := by
  cases answer with
  | ok answer => exact h answer
  | error report => trivial

namespace Parser

section Account

/-- The parser with a source that keeps account. -/
def accounting (parser : Parser σ ε) (starts : List (Parser σ ε)) : Parser (Accounted σ ε) ε :=
  { parser with source := ⟨parser.source, starts⟩ }

/-- The parser without the account. -/
def plain (parser : Parser (Accounted σ ε) ε) : Parser σ ε :=
  { parser with source := parser.source.source }

/-- Puts it down that an expression begins. -/
def noteStart : Parsing (Accounted σ ε) ε Unit :=
  modify fun parser => parser.plain.accounting (parser.source.starts ++ [parser.plain])

variable [ItemSource σ]

/-- A parser does not notice that its source keeps account. -/
theorem corresponds_accounting (starts : List (Parser σ ε)) :
    Corresponds fun (parser : Parser σ ε) twin => twin = parser.accounting starts where
  buffer hpair := hpair ▸ rfl
  lastEnd hpair := hpair ▸ rfl
  prefixes hpair := hpair ▸ rfl
  infixes hpair := hpair ▸ rfl
  reads := by
    rintro parser _ rfl
    unfold pull
    rw [(get_answers parser).run_bind, (get_answers _).run_bind]
    dsimp only [accounting, ItemSource.read]
    cases (ItemSource.read parser.source).1 <;> exact ⟨rfl, rfl⟩
  keep _ hpair := hpair ▸ rfl
  record _ hpair := hpair ▸ rfl
  registerPrefix _ _ hpair := hpair ▸ rfl
  registerInfix _ _ _ hpair := hpair ▸ rfl

/-- Whatever the account, the parser does not notice. -/
theorem corresponds_plain :
    Corresponds fun (parser : Parser σ ε) (twin : Parser (Accounted σ ε) ε) =>
      twin.plain = parser where
  buffer hpair := hpair ▸ rfl
  lastEnd hpair := hpair ▸ rfl
  prefixes hpair := hpair ▸ rfl
  infixes hpair := hpair ▸ rfl
  reads := by
    rintro _ twin rfl
    have hpair : twin = twin.plain.accounting twin.source.starts := rfl
    obtain ⟨hresult, hafter⟩ := (corresponds_accounting twin.source.starts).reads hpair
    exact ⟨hresult, congrArg plain hafter⟩
  keep _ hpair := hpair ▸ rfl
  record _ hpair := hpair ▸ rfl
  registerPrefix _ _ hpair := hpair ▸ rfl
  registerInfix _ _ _ hpair := hpair ▸ rfl

end Account

section Items

/-- The items to be consumed that are no ends of the input. -/
def openItems (parser : Parser (List Item) ε) : Nat := parser.upcoming.countP Item.isOpen

/-- In front of ends of the input, the open items are counted. -/
theorem countP_take_append_const {final : Item} (h : final.isOpen = false) (items : List Item)
    {count : Nat} (hcount : items.length ≤ count) :
    ((items ++ₛ Stream'.const final).take count).countP Item.isOpen =
      items.countP Item.isOpen := by
  induction items generalizing count with
  | nil =>
    rw [Stream'.nil_append_stream]
    clear hcount
    induction count with
    | zero => rfl
    | succ count ih =>
      rw [Stream'.const_eq, Stream'.take_succ_cons, List.countP_cons_of_neg (by simp [h]), ih]
  | cons item items ih =>
    rw [List.length_cons] at hcount
    obtain ⟨rest, rfl⟩ : ∃ rest, count = rest + 1 := ⟨count - 1, by omega⟩
    rw [Stream'.cons_append_stream, Stream'.take_succ_cons, List.countP_cons, List.countP_cons,
      ih (by omega)]

/-- All that is going to be consumed are the upcoming items and then ends of the input. -/
theorem remaining_eq_upcoming (parser : Parser (List Item) ε) :
    parser.remaining = parser.upcoming ++ₛ Stream'.const parser.finalItem :=
  (Stream'.append_append_stream ..).symm

/-- Consuming items takes the open ones off those to be consumed. -/
theorem Consumes.openItems_eq {taken : List Item} {before after : Parser (List Item) ε}
    (h : Consumes taken before after) :
    before.openItems = taken.countP Item.isOpen + after.openItems := by
  have hfinal : after.finalItem = before.finalItem := by
    rw [finalItem, h.finalEnd_eq]
    rfl
  have hstream : before.upcoming ++ₛ Stream'.const before.finalItem =
      (taken ++ after.upcoming) ++ₛ Stream'.const before.finalItem := by
    rw [← remaining_eq_upcoming, h.remaining_eq, Stream'.append_append_stream,
      remaining_eq_upcoming, hfinal]
  have hend : before.finalItem.isOpen = false := rfl
  have hcount := congrArg (fun stream =>
    (stream.take (max before.upcoming.length (taken ++ after.upcoming).length)).countP
      Item.isOpen) hstream
  rw [countP_take_append_const hend _ (Nat.le_max_left ..),
    countP_take_append_const hend _ (Nat.le_max_right ..), List.countP_append] at hcount
  exact hcount

/-- Consuming items adds no open ones. -/
theorem Consumes.openItems_le {taken : List Item} {before after : Parser (List Item) ε}
    (h : Consumes taken before after) : after.openItems ≤ before.openItems := by
  rw [h.openItems_eq]
  exact Nat.le_add_left ..

end Items

/-- All that a parser has registered, and all that this registers, passes on diagnostics, and
none of it is for an end of the input. -/
structure Tame (parser : Parser (List Item) ε) : Prop extends PassesOn parser where
  /-- What begins an expression registers nothing for an end of the input. -/
  prefixes_spare : parser.prefixes.All fun parselet => ∀ item, (parselet item).SparesEnd
  /-- Nor does what goes on with one. -/
  infixes_spare : parser.infixes.All fun rule => ∀ left item, (rule.parselet left item).SparesEnd
  /-- No expression begins with an end of the input. -/
  prefixes_end : parser.prefixes.find? .endOfInput = none
  /-- No expression goes on with one. -/
  infixes_end : parser.infixes.find? .endOfInput = none

section Rules

variable {parser after : Parser (List Item) ε}

/-- A new parser has registered nothing. -/
theorem tame_ofSource (items : List Item) : (ofSource items : Parser (List Item) ε).Tame where
  toPassesOn := passesOn_ofSource items
  prefixes_spare _ _ h := nomatch h
  infixes_spare _ _ h := nomatch h
  prefixes_end := rfl
  infixes_end := rfl

/-- Taking items leaves the rules as they are. -/
theorem Tame.takes (h : parser.Tame) {taken : List Item} (htakes : Takes taken parser after) :
    after.Tame where
  toPassesOn := h.toPassesOn.takes htakes
  prefixes_spare := by rw [htakes.prefixes]; exact h.prefixes_spare
  infixes_spare := by rw [htakes.infixes]; exact h.infixes_spare
  prefixes_end := by rw [htakes.prefixes]; exact h.prefixes_end
  infixes_end := by rw [htakes.infixes]; exact h.infixes_end

/-- A beginning is registered that is not for an end of the input. -/
theorem Tame.registerPrefix (h : parser.Tame) {token : Token} (htoken : token ≠ .endOfInput)
    {parselet : Item → Script ε} (hparselet : ∀ item, (parselet item).PassesOn none)
    (hspares : ∀ item, (parselet item).SparesEnd) :
    (parser.registerPrefix token parselet).Tame where
  toPassesOn := h.toPassesOn.registerPrefix token hparselet
  prefixes_spare := h.prefixes_spare.put token hspares
  infixes_spare := h.infixes_spare
  prefixes_end := (Registry.find?_put_of_ne htoken.symm _ _).trans h.prefixes_end
  infixes_end := h.infixes_end

/-- A continuation is registered that is not for an end of the input. -/
theorem Tame.registerInfix (h : parser.Tame) {token : Token} (htoken : token ≠ .endOfInput)
    (power : Int32) {parselet : ε → Item → Script ε}
    (hparselet : ∀ left item, (parselet left item).PassesOn none)
    (hspares : ∀ left item, (parselet left item).SparesEnd) :
    (parser.registerInfix token power parselet).Tame where
  toPassesOn := h.toPassesOn.registerInfix token power hparselet
  prefixes_spare := h.prefixes_spare
  infixes_spare := h.infixes_spare.put token hspares
  prefixes_end := h.prefixes_end
  infixes_end := (Registry.find?_put_of_ne htoken.symm _ _).trans h.infixes_end

end Rules

/-- How an operation ends that has begun a number of expressions, with numbers of open items
before and after it. If it answers, it has taken at least so many open items as it is to take,
and they pay for the expressions with so many to spare. If it is rejected, one expression need
not be paid for. If it is rejected with a diagnostic that had been received before it began, it
has done nothing. -/
inductive Settled (before after begun take spare : Nat) :
    Option Diagnostic → Except Interruption α → Prop where
  /-- It answers. -/
  | answered (answer : α) (htake : after + take ≤ before) (hpaid : after + begun + spare ≤ before) :
      Settled before after begun take spare none (.ok answer)
  /-- It is rejected. -/
  | rejected (report : Diagnostic) (hkept : after ≤ before)
      (hpaid : after + begun + spare ≤ before + 1) :
      Settled before after begun take spare none (.error (.rejected report))
  /-- A diagnostic is passed on. -/
  | passedOn (report : Diagnostic) (hkept : after = before) (hbegun : begun = 0) :
      Settled before after begun take spare (some report) (.error (.rejected report))

/-- Behind an answer, what is left over pays for what follows. -/
theorem Settled.behind {before middle after begun more take spare : Nat}
    {result : Except Interruption α} (htake : middle + take ≤ before)
    (hpaid : middle + begun + spare ≤ before) (h : Settled middle after more 0 0 none result) :
    Settled before after (begun + more) take spare none result := by
  cases h with
  | answered answer htakes hpays => exact .answered answer (by omega) (by omega)
  | rejected report hkept hpays => exact .rejected report (by omega) (by omega)

/-- The item to spare pays for the expression itself. -/
theorem Settled.begin {before after begun : Nat} {result : Except Interruption α}
    (h : Settled before after begun 1 1 none result) :
    Settled before after (begun + 1) 1 0 none result := by
  cases h with
  | answered answer htake hpaid => exact .answered answer htake hpaid
  | rejected report hkept hpaid => exact .rejected report hkept hpaid

/-- What is settled has been answered or rejected. -/
theorem Settled.exists_outcome {before after begun take spare : Nat}
    {result : Except Interruption α} (h : Settled before after begun take spare none result) :
    ∃ outcome : Except Diagnostic α, result = outcome.mapError .rejected := by
  cases h with
  | answered answer => exact ⟨.ok answer, rfl⟩
  | rejected report => exact ⟨.error report, rfl⟩

/-- For an answer or a diagnostic, a budget has sufficed. -/
theorem mapError_ne_exhausted (outcome : Except Diagnostic α) :
    outcome.mapError Interruption.rejected ≠ .error .exhausted := by
  cases outcome <;> nofun

/-- A run is settled that began with an account and a number of open items: the expressions it
has begun are put down, and all of them began with rules that spare the ends of the input. -/
def Balanced (received : Option Diagnostic) (before take spare : Nat)
    (starts : List (Parser (List Item) ε))
    (ran : Except Interruption α × Parser (Accounted (List Item) ε) ε) : Prop :=
  ∃ (after : Parser (List Item) ε) (begun : List (Parser (List Item) ε)),
    ran.2 = after.accounting (starts ++ begun) ∧ after.Tame ∧ (∀ start ∈ begun, start.Tame) ∧
      Settled before after.openItems begun.length take spare received ran.1

/-- With fewer open items than a limit, and with rules that spare the ends of the input, an
operation ends, and its run is balanced. -/
def Frugal (received : Option Diagnostic) (limit take spare : Nat)
    (operation : Parsing (Accounted (List Item) ε) ε α) : Prop :=
  ∀ ⦃parser : Parser (List Item) ε⦄ (starts : List (Parser (List Item) ε)), parser.Tame →
    parser.openItems < limit →
      Balanced received parser.openItems take spare starts
        (operation.run.run (parser.accounting starts))

section Operations

variable {received : Option Diagnostic} {before limit take spare : Nat}
  {starts : List (Parser (List Item) ε)} {parser after : Parser (List Item) ε}
  {operation : Parsing (Accounted (List Item) ε) ε α}

/-- A rejected run that begins no expression is balanced. -/
theorem Rejects.balanced {report : Diagnostic}
    (h : Rejects operation (parser.accounting starts) report (after.accounting starts))
    (hafter : after.Tame) (hkept : after.openItems ≤ before) (hspare : spare ≤ 1) :
    Balanced none before take spare starts (operation.run.run (parser.accounting starts)) := by
  have hrun : operation.run.run (parser.accounting starts) =
      (.error (.rejected report), after.accounting starts) := h
  rw [hrun]
  refine ⟨after, [], by rw [List.append_nil], hafter, nofun, .rejected report hkept ?_⟩
  rw [List.length_nil]
  omega

/-- What follows is balanced where the account of what came before is. -/
theorem Frugal.balanced_behind (h : Frugal received limit 0 0 operation)
    {begun : List (Parser (List Item) ε)} (hparser : parser.Tame)
    (hlimit : parser.openItems < limit) (hbegun : ∀ start ∈ begun, start.Tame)
    (hsettles : ∀ (result : Except Interruption α) last more,
      Settled parser.openItems last more 0 0 received result →
        Settled before last (begun.length + more) take spare none result) :
    Balanced none before take spare starts
      (operation.run.run (parser.accounting (starts ++ begun))) := by
  obtain ⟨after, more, hafter, htame, hmore, hsettled⟩ := h (starts ++ begun) hparser hlimit
  refine ⟨after, begun ++ more, by rw [hafter, List.append_assoc], htame,
    List.forall_mem_append.mpr ⟨hbegun, hmore⟩, ?_⟩
  rw [List.length_append]
  exact hsettles _ _ _ hsettled

/-- Without an open item to come nothing is to be shown. -/
theorem frugal_zero (operation : Parsing (Accounted (List Item) ε) ε α) :
    Frugal received 0 take spare operation :=
  fun _ _ _ hlimit => absurd hlimit (Nat.not_lt_zero _)

/-- Answering right away is frugal. -/
theorem frugal_pure (answer : α) :
    Frugal none limit 0 0 (Pure.pure answer : Parsing (Accounted (List Item) ε) ε α) :=
  fun parser starts h _ => ⟨parser, [], by rw [List.append_nil]; rfl, h, nofun,
    .answered answer (Nat.le_refl _) (Nat.le_refl _)⟩

/-- Rejecting right away is frugal. -/
theorem frugal_reject (report : Diagnostic) :
    Frugal none limit 0 0 (reject report : Parsing (Accounted (List Item) ε) ε α) :=
  fun parser starts h _ =>
    have hrejects : Rejects (reject report : Parsing (Accounted (List Item) ε) ε α)
        (parser.accounting starts) report (parser.accounting starts) := rfl
    hrejects.balanced h (Nat.le_refl _) (Nat.zero_le 1)

/-- A frugal operation is so with a smaller limit. -/
theorem Frugal.of_le (h : Frugal received limit take spare operation) {smaller : Nat}
    (hle : smaller ≤ limit) : Frugal received smaller take spare operation :=
  fun _ starts hparser hlimit => h starts hparser (Nat.lt_of_lt_of_le hlimit hle)

/-- What an operation takes and spares may be left out of account. -/
theorem Frugal.relax (h : Frugal none limit take spare operation) :
    Frugal none limit 0 0 operation := by
  intro parser starts hparser hlimit
  obtain ⟨after, begun, hafter, htame, hbegun, hsettled⟩ := h starts hparser hlimit
  refine ⟨after, begun, hafter, htame, hbegun, ?_⟩
  generalize (operation.run.run (parser.accounting starts)).1 = result at hsettled
  cases hsettled with
  | answered answer htake hpaid => exact .answered answer (by omega) (by omega)
  | rejected report hkept hpaid => exact .rejected report hkept (by omega)

/-- Frugal operations in a row are frugal; what the first one takes is less for the second. -/
theorem Frugal.bind (h : Frugal none limit take spare operation)
    {next : α → Parsing (Accounted (List Item) ε) ε β} {rest : Nat}
    (hnext : ∀ answer, Frugal none rest 0 0 (next answer)) (hrest : limit ≤ rest + take) :
    Frugal none limit take spare (operation >>= next) := by
  intro parser starts hparser hlimit
  have hfirst := h starts hparser hlimit
  rw [run_bind]
  generalize operation.run.run (parser.accounting starts) = ran at hfirst
  obtain ⟨result, _⟩ := ran
  obtain ⟨middle, begun, rfl, hmiddle, hbegun, hsettled⟩ := hfirst
  cases hsettled with
  | rejected report hkept hpaid =>
    exact ⟨middle, begun, rfl, hmiddle, hbegun, .rejected report hkept hpaid⟩
  | answered answer htake hpaid =>
    exact (hnext answer).balanced_behind hmiddle (by omega) hbegun
      fun _ _ _ => Settled.behind htake hpaid

/-- Operations are frugal where a diagnostic that is caught is passed on. -/
theorem Frugal.attempt_bind (h : Frugal none limit 0 0 operation)
    {next : Except Diagnostic α → Parsing (Accounted (List Item) ε) ε β}
    (hnext : ∀ answer, Frugal (Script.received? answer) limit 0 0 (next answer)) :
    Frugal none limit 0 0 (attempt operation >>= next) := by
  intro parser starts hparser hlimit
  have hfirst := h starts hparser hlimit
  rw [run_bind, run_attempt]
  generalize operation.run.run (parser.accounting starts) = ran at hfirst
  obtain ⟨result, _⟩ := ran
  obtain ⟨middle, begun, rfl, hmiddle, hbegun, hsettled⟩ := hfirst
  cases hsettled with
  | answered answer htake hpaid =>
    exact (hnext (.ok answer)).balanced_behind hmiddle (by omega) hbegun
      fun _ _ _ => Settled.behind htake hpaid
  | rejected report hkept hpaid =>
    refine (hnext (.error report)).balanced_behind hmiddle (by omega) hbegun
      fun result last more hpassed => ?_
    cases hpassed with
    | passedOn report hsame hnone => exact .rejected report (by omega) (by omega)

/-- Operations are frugal behind an answer that takes nothing. -/
theorem Frugal.of_answers {next : α → Parsing (Accounted (List Item) ε) ε β}
    (hanswer : ∀ (parser : Parser (List Item) ε) starts, parser.Tame →
      ∃ answer, ∃ after : Parser (List Item) ε,
        Answers operation (parser.accounting starts) answer (after.accounting starts) ∧
          after.Tame ∧ after.openItems = parser.openItems)
    (hnext : ∀ answer, Frugal received limit take spare (next answer)) :
    Frugal received limit take spare (operation >>= next) := by
  intro parser starts hparser hlimit
  obtain ⟨answer, middle, hrun, hmiddle, hsame⟩ := hanswer parser starts hparser
  rw [hrun.run_bind, ← hsame]
  exact hnext answer starts hmiddle (hsame ▸ hlimit)

/-- What an operation brings and leaves, it brings and leaves with every account. -/
theorem run_accounting {plainly : Parsing (List Item) ε α} {result : Except Interruption α}
    (hagrees : Agrees (fun parser twin => twin = parser.accounting starts) plainly operation)
    (hrun : plainly.run.run parser = (result, after)) (hresult : result ≠ .error .exhausted) :
    operation.run.run (parser.accounting starts) = (result, after.accounting starts) := by
  obtain ⟨_, hother, rfl⟩ := hagrees.exists_run rfl hrun hresult
  exact hother

/-- Operations are frugal behind one that only looks at items. -/
theorem Frugal.of_takes {plainly : Parsing (List Item) ε α}
    {next : α → Parsing (Accounted (List Item) ε) ε β}
    (hagrees : ∀ starts, Agrees (fun parser twin => twin = parser.accounting starts) plainly
      operation)
    (htakes : ∀ parser : Parser (List Item) ε, ∃ answer after,
      Answers plainly parser answer after ∧ Takes [] parser after)
    (hnext : ∀ answer, Frugal received limit take spare (next answer)) :
    Frugal received limit take spare (operation >>= next) := by
  refine Frugal.of_answers (fun parser starts hparser => ?_) hnext
  obtain ⟨answer, after, hanswer, hafter⟩ := htakes parser
  have hopen := hafter.toConsumes.openItems_eq
  rw [List.countP_nil, Nat.zero_add] at hopen
  exact ⟨answer, after, run_accounting (hagrees starts) hanswer nofun, hparser.takes hafter,
    hopen.symm⟩

/-- Looking ahead is frugal. -/
theorem frugal_lookAhead (distance : Nat) {next : Item → Parsing (Accounted (List Item) ε) ε β}
    (hnext : ∀ answer, Frugal received limit take spare (next answer)) :
    Frugal received limit take spare (lookAhead distance >>= next) :=
  .of_takes (fun starts => (corresponds_accounting starts).agrees_lookAhead distance)
    (fun parser => ⟨_, lookAhead_reads distance parser⟩) hnext

/-- Asking for the binding power of the next token is frugal. -/
theorem frugal_precedence {next : Int32 → Parsing (Accounted (List Item) ε) ε β}
    (hnext : ∀ answer, Frugal received limit take spare (next answer)) :
    Frugal received limit take spare (precedence >>= next) :=
  .of_takes (fun starts => (corresponds_accounting starts).agrees_precedence)
    (fun parser => ⟨_, precedence_reads parser⟩) hnext

/-- What depends on the parser is frugal if it is so with the rules the parser may have. -/
theorem frugal_get
    {next : Parser (Accounted (List Item) ε) ε → Parsing (Accounted (List Item) ε) ε β}
    (hnext : ∀ (parser : Parser (List Item) ε) starts, parser.Tame →
      Frugal received limit take spare (next (parser.accounting starts))) :
    Frugal received limit take spare (get >>= next) := by
  intro parser starts hparser hlimit
  rw [(get_answers _).run_bind]
  exact hnext parser starts hparser starts hparser hlimit

/-- Consuming the next item is frugal if what follows is so behind an open item and is rejected
behind an end of the input. -/
theorem frugal_advance_bind {next : Item → Parsing (Accounted (List Item) ε) ε β}
    (hopen : ∀ item, item.isOpen = true → Frugal none limit 0 0 (next item))
    (hend : ∀ item, item.isOpen = false → ∀ (parser : Parser (List Item) ε) starts, parser.Tame →
      ∃ report, Rejects (next item) (parser.accounting starts) report
        (parser.accounting starts)) :
    Frugal none (limit + 1) 1 1 (advance >>= next) := by
  intro parser starts hparser hlimit
  generalize hitem : parser.remaining.head = item
  have hagrees := (corresponds_accounting starts).agrees_advance
  cases hfailure : item.isFailure with
  | true =>
    obtain ⟨after, hrun, hafter⟩ := advance_rejects hitem hfailure
    have hrejects : Rejects advance (parser.accounting starts) _ (after.accounting starts) :=
      run_accounting hagrees hrun nofun
    exact (hrejects.bind next).balanced (hparser.takes hafter)
      hafter.toConsumes.openItems_le (Nat.le_refl 1)
  | false =>
    obtain ⟨after, hrun, hafter⟩ := advance_takes hitem hfailure
    have hanswers : Answers advance (parser.accounting starts) item (after.accounting starts) :=
      run_accounting hagrees hrun nofun
    have hcount := hafter.toConsumes.openItems_eq
    rw [List.countP_singleton] at hcount
    rw [hanswers.run_bind]
    cases hkind : item.isOpen with
    | false =>
      obtain ⟨report, hrejects⟩ := hend item hkind after starts (hparser.takes hafter)
      exact hrejects.balanced (hparser.takes hafter) (by omega) (Nat.le_refl 1)
    | true =>
      rw [if_pos hkind] at hcount
      have hbalanced : Balanced none parser.openItems 1 1 starts
          ((next item).run.run (after.accounting (starts ++ []))) :=
        (hopen item hkind).balanced_behind (hparser.takes hafter) (by omega)
          (List.forall_mem_nil _) fun _ _ _ =>
            Settled.behind (by omega) (by rw [List.length_nil]; omega)
      rwa [List.append_nil] at hbalanced

/-- Consuming the next item is frugal. -/
theorem frugal_advance :
    Frugal none limit 0 0 (advance : Parsing (Accounted (List Item) ε) ε Item) := by
  intro parser starts hparser hlimit
  have hagrees := (corresponds_accounting starts).agrees_advance
  cases hfailure : parser.remaining.head.isFailure with
  | true =>
    obtain ⟨after, hrun, hafter⟩ := advance_rejects rfl hfailure
    exact Rejects.balanced (run_accounting hagrees hrun nofun) (hparser.takes hafter)
      hafter.toConsumes.openItems_le (Nat.zero_le 1)
  | false =>
    obtain ⟨after, hrun, hafter⟩ := advance_takes rfl hfailure
    rw [run_accounting hagrees hrun nofun]
    exact ⟨after, [], by rw [List.append_nil], hparser.takes hafter, nofun,
      .answered _ hafter.toConsumes.openItems_le hafter.toConsumes.openItems_le⟩

/-- Matching a token is frugal. -/
theorem frugal_matchToken (expected : Token) :
    Frugal none limit 0 0 (matchToken expected : Parsing (Accounted (List Item) ε) ε Bool) := by
  refine frugal_lookAhead 0 fun ahead => ?_
  split
  · exact frugal_advance.bind (fun _ => frugal_pure true) (Nat.le_refl limit)
  · exact frugal_pure false

/-- Consuming an expected token is frugal. -/
theorem frugal_consume (expected : Token) :
    Frugal none limit 0 0 (consume expected : Parsing (Accounted (List Item) ε) ε Item) := by
  refine frugal_lookAhead 0 fun ahead => ?_
  split
  · exact frugal_advance
  · exact frugal_reject _

end Operations

section Expressions

variable {expression : Int32 → Parsing (Accounted (List Item) ε) ε ε} {limit : Nat}
  (hexpression : ∀ minimum, Frugal none limit 1 0 (expression minimum))

include hexpression

/-- Expressions with separators are frugal if single ones are. -/
theorem frugal_separated (minimum : Int32) (separator : Token) {budget : Nat}
    (hbudget : budget ≤ limit) (members : Array ε) :
    Frugal none budget 1 0 (separated expression minimum separator budget members) := by
  induction budget generalizing members with
  | zero => exact frugal_zero _
  | succ budget ih =>
    refine ((hexpression minimum).of_le hbudget).bind (fun member => ?_) (Nat.le_refl (budget + 1))
    refine (frugal_matchToken separator).bind (fun found => ?_) (Nat.le_refl budget)
    split
    · exact (ih (Nat.le_of_succ_le hbudget) _).relax
    · exact frugal_pure _

/-- Carrying out a script is frugal if it passes on what it receives and spares the ends of the
input. -/
theorem frugal_play {received : Option Diagnostic} {script : Script ε}
    (h : script.PassesOn received) (hspares : script.SparesEnd) :
    Frugal received limit 0 0 (play expression limit script) := by
  induction h with
  | done result =>
    cases result with
    | ok answer => exact frugal_pure answer
    | error report => exact frugal_reject report
  | giveUp report =>
    exact fun parser starts h _ => ⟨parser, [], by rw [List.append_nil]; rfl, h, nofun,
      .passedOn report rfl rfl⟩
  | expression minimum h ih =>
    exact (hexpression minimum).relax.attempt_bind fun answer => ih answer (hspares answer)
  | separated minimum separator h ih =>
    have hmembers := frugal_separated hexpression minimum separator (Nat.le_refl limit) #[]
    exact hmembers.relax.attempt_bind fun answer => ih answer (hspares answer)
  | matchToken expected h ih =>
    exact (frugal_matchToken expected).attempt_bind fun answer => ih answer (hspares answer)
  | consume expected h ih =>
    exact (frugal_consume expected).attempt_bind fun answer => ih answer (hspares answer)
  | precedence h ih => exact frugal_precedence fun answer => ih answer (hspares answer)
  | lookAhead distance h ih =>
    exact frugal_lookAhead distance fun answer => ih answer (hspares answer)
  | infixPower token h ih => exact frugal_get fun parser starts _ => ih _ (hspares _)
  | registerPrefix token hparselet hrest _ ih =>
    obtain ⟨htoken, hparselets, hrests⟩ := hspares
    refine Frugal.of_answers (fun parser starts hparser => ?_) fun _ => ih hrests
    exact ⟨(), parser.registerPrefix token _, rfl,
      hparser.registerPrefix htoken hparselet hparselets, rfl⟩
  | registerInfix token power hparselet hrest _ ih =>
    obtain ⟨htoken, hparselets, hrests⟩ := hspares
    refine Frugal.of_answers (fun parser starts hparser => ?_) fun _ => ih hrests
    exact ⟨(), parser.registerInfix token power _, rfl,
      hparser.registerInfix htoken power hparselet hparselets, rfl⟩

/-- Reading the beginning of an expression is frugal, and takes an open item. -/
theorem frugal_begin : Frugal none (limit + 1) 1 1 (begin expression limit) := by
  refine frugal_advance_bind (fun item _ => ?_) fun item hitem parser starts hparser => ?_
  · refine frugal_get fun parser starts hparser => ?_
    cases hrule : (parser.accounting starts).prefixes.find? item.token with
    | none => exact frugal_reject _
    | some parselet =>
      exact frugal_play hexpression (hparser.prefixes _ _ hrule item)
        (hparser.prefixes_spare _ _ hrule item)
  · have hnone : (parser.accounting starts).prefixes.find? item.token = none := by
      rw [Item.token_of_not_isOpen hitem]
      exact hparser.prefixes_end
    refine ⟨unexpectedReport item, (get_answers _).bind_rejects ?_⟩
    rw [hnone]
    rfl

/-- Going on with an expression is frugal, and takes an open item. -/
theorem frugal_extend (left : ε) : Frugal none (limit + 1) 1 1 (extend expression limit left) := by
  refine frugal_advance_bind (fun item _ => ?_) fun item hitem parser starts hparser => ?_
  · refine frugal_get fun parser starts hparser => ?_
    cases hrule : (parser.accounting starts).infixes.find? item.token with
    | none => exact frugal_reject _
    | some rule =>
      exact frugal_play hexpression (hparser.infixes _ _ hrule left item)
        (hparser.infixes_spare _ _ hrule left item)
  · have hnone : (parser.accounting starts).infixes.find? item.token = none := by
      rw [Item.token_of_not_isOpen hitem]
      exact hparser.infixes_end
    refine ⟨unexpectedReport item, (get_answers _).bind_rejects ?_⟩
    rw [hnone]
    rfl

/-- Going on however often is frugal: each time takes an open item. -/
theorem frugal_climb (minimum : Int32) {budget : Nat} (hbudget : budget ≤ limit + 1) (left : ε) :
    Frugal none budget 0 0 (climb expression limit minimum budget left) := by
  induction budget generalizing left with
  | zero => exact frugal_zero _
  | succ budget ih =>
    refine frugal_precedence fun power => ?_
    split
    · exact (((frugal_extend hexpression left).of_le hbudget).bind
        (fun extended => ih (Nat.le_of_succ_le hbudget) extended) (Nat.le_refl (budget + 1))).relax
    · exact frugal_pure left

/-- What an expression does behind the note that it begins is frugal, and spares an item to pay
for the expression. -/
theorem frugal_begin_climb (minimum : Int32) :
    Frugal none (limit + 1) 1 1
      (begin expression limit >>= climb expression limit minimum (limit + 1)) :=
  (frugal_begin hexpression).bind
    (fun left => frugal_climb hexpression minimum (Nat.le_refl (limit + 1)) left)
    (Nat.le_add_right (limit + 1) 1)

end Expressions

/-- An expression first puts down that it begins. -/
theorem run_watched (budget : Nat) (minimum : Int32) (parser : Parser (List Item) ε)
    (starts : List (Parser (List Item) ε)) :
    (watched noteStart (budget + 1) minimum).run.run (parser.accounting starts) =
      (begin (watched noteStart budget) budget >>=
        climb (watched noteStart budget) budget minimum (budget + 1)).run.run
          (parser.accounting (starts ++ [parser])) := by
  have hnoted : Answers noteStart (parser.accounting starts) ()
    (parser.accounting (starts ++ [parser])) := rfl
  rw [watched, hnoted.run_bind]

/-- An expression of which it is put down that it begins is frugal, and takes an open item. -/
theorem frugal_watched (budget : Nat) (minimum : Int32) :
    Frugal none budget 1 0 (watched noteStart budget minimum : Parsing _ ε ε) := by
  induction budget generalizing minimum with
  | zero => exact frugal_zero _
  | succ budget ih =>
    intro parser starts hparser hlimit
    obtain ⟨after, begun, hafter, htame, hbegun, hsettled⟩ :=
      frugal_begin_climb ih minimum (starts ++ [parser]) hparser hlimit
    rw [run_watched]
    refine ⟨after, parser :: begun, ?_, htame, List.forall_mem_cons.mpr ⟨hparser, hbegun⟩,
      hsettled.begin⟩
    rw [hafter, List.append_assoc]
    rfl

/-- Parsing an expression brings what it brings where it is put down that expressions begin. -/
theorem agrees_plain [ItemSource σ] (budget : Nat) (minimum : Int32) :
    Agrees (fun (twin : Parser (Accounted σ ε) ε) parser => twin.plain = parser)
      (watched noteStart budget minimum) (parseExpression budget minimum) := by
  rw [← watched_pure]
  refine corresponds_plain.swap.agrees_watched ?_ (Nat.le_refl budget) minimum
  rintro twin _ rfl
  exact .inr ⟨rfl, rfl⟩

/-- With a budget larger than the number of open items, an expression ends, and the open items
pay for the expressions in it. -/
theorem Tame.exists_outcome {parser : Parser (List Item) ε} (h : parser.Tame) (minimum : Int32)
    {budget : Nat} (hlimit : parser.openItems < budget) :
    ∃ (outcome : Except Diagnostic ε) (after : Parser (List Item) ε)
        (inner : List (Parser (List Item) ε)),
      (parseExpression budget minimum).run.run parser = (outcome.mapError .rejected, after) ∧
      (watched noteStart budget minimum).run.run (parser.accounting []) =
        (outcome.mapError .rejected, after.accounting (parser :: inner)) ∧
      (∀ start ∈ inner, start.Tame) ∧
      Settled parser.openItems after.openItems (inner.length + 1) 1 0 none
        (outcome.mapError .rejected) := by
  obtain ⟨budget, rfl⟩ : ∃ rest, budget = rest + 1 := ⟨budget - 1, by omega⟩
  obtain ⟨after, inner, hlast, -, hinner, hsettled⟩ :=
    frugal_begin_climb (frugal_watched budget) minimum [parser] h hlimit
  have hnoted := run_watched budget minimum parser []
  rw [List.nil_append] at hnoted
  rw [← hnoted] at hlast hsettled
  obtain ⟨outcome, houtcome⟩ := hsettled.exists_outcome
  rw [houtcome] at hsettled
  have hwatched : (watched noteStart (budget + 1) minimum).run.run (parser.accounting []) =
      (outcome.mapError .rejected, after.accounting (parser :: inner)) := Prod.ext houtcome hlast
  have hresult := mapError_ne_exhausted outcome
  obtain ⟨_, hplain, rfl⟩ := (agrees_plain (budget + 1) minimum).exists_run rfl hwatched hresult
  exact ⟨outcome, after, inner, hplain, hwatched, hinner, hsettled.begin⟩

/-- An expression that is parsed with rules that spare the ends of the input has an item in it
that is no such end. -/
theorem Tame.exists_open {parser after : Parser (List Item) ε} (h : parser.Tame) {budget : Nat}
    {minimum : Int32} {expression : ε}
    (hanswer : Answers (parseExpression budget minimum) parser expression after) :
    ∃ taken, Consumes taken parser after ∧ ∃ item ∈ taken, item.isEnd = false := by
  have hrun : (parseExpression budget minimum).run.run parser = (.ok expression, after) := hanswer
  obtain ⟨_, _, taken, hsame, -, htaken, -⟩ :=
    surfaces_parseExpression budget minimum h.toPassesOn
  obtain ⟨rfl, rfl⟩ := Prod.mk.inj (hsame.symm.trans hrun)
  -- a budget that suffices brings the same
  have hmore := (steady_parseExpression minimum _ _
    (Nat.le_max_left budget (parser.openItems + 1))).run_eq hrun nofun
  obtain ⟨outcome, last, inner, hends, -, -, hsettled⟩ :=
    h.exists_outcome minimum (Nat.le_max_right budget (parser.openItems + 1))
  obtain ⟨hresult, rfl⟩ := Prod.mk.inj (hends.symm.trans hmore)
  rw [hresult] at hsettled
  cases hsettled with
  | answered _ htake hpaid =>
    have hcount := htaken.openItems_eq
    have htaken_open : 0 < taken.countP Item.isOpen := by omega
    obtain ⟨item, hitem, hopen⟩ := List.countP_pos_iff.mp htaken_open
    exact ⟨taken, htaken, item, hitem, by simpa [Item.isOpen] using hopen⟩

/-- Parsing an expression ends, with an answer or a diagnostic, if no end of the input begins an
expression or goes on with one, and if all parselets pass on the diagnostics they receive. A
budget larger than the number of open items suffices. The expressions that are begun on the way
are at most one more than the open items, and each one that is parsed takes an open item. -/
theorem every_expression_ends {parser : Parser (List Item) ε} (h : parser.Tame)
    (minimum : Int32) :
    ∃ (outcome : Except Diagnostic ε) (after : Parser (List Item) ε)
        (inner : List (Parser (List Item) ε)),
      (∀ budget, parser.openItems < budget →
        (parseExpression budget minimum).run.run parser = (outcome.mapError .rejected, after) ∧
        (watched noteStart budget minimum).run.run (parser.accounting []) =
          (outcome.mapError .rejected, after.accounting (parser :: inner))) ∧
      (parser :: inner).length ≤ parser.openItems + 1 ∧
      ∀ start ∈ parser :: inner, ∀ budget least expression last,
        Answers (parseExpression budget least) start expression last →
          ∃ taken, Consumes taken start last ∧ ∃ item ∈ taken, item.isEnd = false := by
  obtain ⟨outcome, after, inner, hplain, hwatched, hinner, hsettled⟩ :=
    h.exists_outcome minimum (Nat.lt_succ_self parser.openItems)
  have hresult := mapError_ne_exhausted outcome
  refine ⟨outcome, after, inner, fun budget hbudget => ⟨?_, ?_⟩, ?_, ?_⟩
  · exact (steady_parseExpression minimum _ _ hbudget).run_eq hplain hresult
  · exact (corresponds_eq.agrees_watched (agrees_refl noteStart) hbudget minimum).run_eq hwatched
      hresult
  · rw [List.length_cons]
    cases outcome with
    | ok expression => cases hsettled with | answered _ _ hpaid => omega
    | error report => cases hsettled with | rejected _ _ hpaid => omega
  · exact fun start hstart budget least expression last =>
      (List.forall_mem_cons.mpr ⟨h, hinner⟩ start hstart).exists_open

/-- A list of letters, cut by an end of the input. -/
def cutList : Parser (List Item) Nat :=
  ((ofTokens [⟨"["⟩, ⟨"x"⟩, ⟨","⟩, .endOfInput, ⟨"x"⟩, ⟨"]"⟩]).registerPrefix ⟨"x"⟩
    fun _ => .accept 1).registerPrefix ⟨"["⟩ fun _ =>
      .thenSeparated 0 ⟨","⟩ fun members => .thenConsume ⟨"]"⟩ fun _ => .accept members.length

/-- Where the list is cut, parsing it ends without an expression, with every budget that
suffices, and what stands behind the cut is left. -/
theorem every_expression_ends_cutList :
    cutList.Tame ∧ cutList.openItems = 5 ∧ ∀ budget, 5 < budget →
      ((parseExpression budget (-1)).run.run cutList).1.toOption = none ∧
      ((parseExpression budget (-1)).run.run cutList).2.upcoming.map Item.token =
        [⟨"x"⟩, ⟨"]"⟩] := by
  have hrules : cutList.Tame := by
    refine ((tame_ofSource _).registerPrefix (by decide) (fun _ => .done _)
      fun _ => trivial).registerPrefix (by decide) (fun _ => ?_) fun _ => ?_
    · exact .separated 0 ⟨","⟩ (Script.PassesOn.passOn fun _ =>
        .consume ⟨"]"⟩ (Script.PassesOn.passOn fun _ => .done _))
    · exact Script.SparesEnd.passOn fun _ => Script.SparesEnd.passOn fun _ => trivial
  have hopen : cutList.openItems = 5 := by decide
  obtain ⟨outcome, after, inner, hends, -⟩ := every_expression_ends hrules (-1)
  have hsix : ((parseExpression 6 (-1)).run.run cutList).1.toOption = none ∧
      ((parseExpression 6 (-1)).run.run cutList).2.upcoming.map Item.token =
        [⟨"x"⟩, ⟨"]"⟩] := by decide +kernel
  refine ⟨hrules, hopen, fun budget hbudget => ?_⟩
  rw [(hends budget (hopen ▸ hbudget)).1]
  rwa [(hends 6 (hopen ▸ Nat.lt_succ_self 5)).1] at hsix

end Parser

end LanguageKit
