import LanguageKit.Proofs.RemainingItems

/-!
# Budgets only withhold answers

An operation that does not run out of its budget brings the same with every larger one. This
is shown for parsers that correspond to each other in any way that reading, consuming and
registering keep, so that it also says that a parser does not notice what its source keeps
account of, and that what has been recorded stays. What a call brings, apart from all budgets,
is what it brings with any budget that suffices.
-/

namespace LanguageKit.Parser

variable {σ τ ε α β : Type}

/-- From parsers that are related, both operations bring the same, and leave related parsers,
unless the first one runs out of its budget. -/
def Agrees (related : Parser σ ε → Parser τ ε → Prop) (operation : Parsing σ ε α)
    (other : Parsing τ ε α) : Prop :=
  ∀ ⦃parser twin⦄, related parser twin →
    (operation.run.run parser).1 = .error .exhausted ∨
      (other.run.run twin).1 = (operation.run.run parser).1 ∧
        related (operation.run.run parser).2 (other.run.run twin).2

section Composition

variable {related : Parser σ ε → Parser τ ε → Prop}

/-- A result that is brought from one parser is brought from the related one. -/
theorem Agrees.exists_run {operation : Parsing σ ε α} {other : Parsing τ ε α}
    (h : Agrees related operation other) {parser after : Parser σ ε} {twin : Parser τ ε}
    (hpair : related parser twin) {result : Except Interruption α}
    (hrun : operation.run.run parser = (result, after)) (hresult : result ≠ .error .exhausted) :
    ∃ last, other.run.run twin = (result, last) ∧ related after last := by
  have hboth := h hpair
  rw [hrun] at hboth
  obtain ⟨hsame, hafter⟩ := hboth.resolve_left hresult
  exact ⟨_, Prod.ext hsame rfl, hafter⟩

/-- Answering right away agrees. -/
theorem agrees_pure (answer : α) :
    Agrees related (Pure.pure answer) (Pure.pure answer) :=
  fun _ _ h => .inr ⟨rfl, h⟩

/-- Interrupting right away agrees. -/
theorem agrees_throw (interruption : Interruption) :
    Agrees (α := α) related (throw interruption) (throw interruption) :=
  fun _ _ h => .inr ⟨rfl, h⟩

/-- An operation without a budget agrees with everything. -/
theorem agrees_exhausted (other : Parsing τ ε α) :
    Agrees related (throw .exhausted) other :=
  fun _ _ _ => .inl rfl

/-- Operations in a row agree if the single ones do. -/
theorem Agrees.bind {operation : Parsing σ ε α} {other : Parsing τ ε α}
    {next : α → Parsing σ ε β} {nextOther : α → Parsing τ ε β}
    (h : Agrees related operation other)
    (hnext : ∀ answer, Agrees related (next answer) (nextOther answer)) :
    Agrees related (operation >>= next) (other >>= nextOther) := by
  intro parser twin hpair
  have hfirst := h hpair
  rw [run_bind, run_bind]
  generalize operation.run.run parser = ran at hfirst
  generalize other.run.run twin = otherRan at hfirst
  obtain ⟨result, middle⟩ := ran
  obtain ⟨otherResult, otherMiddle⟩ := otherRan
  rcases hfirst with rfl | ⟨rfl, hmiddle⟩
  · exact .inl rfl
  · cases otherResult with
    | error interruption => exact .inr ⟨rfl, hmiddle⟩
    | ok answer => exact hnext answer hmiddle

/-- Catching diagnostics agrees. -/
theorem Agrees.attempt {operation : Parsing σ ε α} {other : Parsing τ ε α}
    (h : Agrees related operation other) :
    Agrees related (attempt operation) (attempt other) := by
  intro parser twin hpair
  have hfirst := h hpair
  rw [run_attempt, run_attempt]
  generalize operation.run.run parser = ran at hfirst
  generalize other.run.run twin = otherRan at hfirst
  obtain ⟨result, middle⟩ := ran
  obtain ⟨otherResult, otherMiddle⟩ := otherRan
  rcases hfirst with rfl | ⟨rfl, hmiddle⟩
  · exact .inl rfl
  · obtain (_ | _ | _) | _ := otherResult <;> exact .inr ⟨rfl, hmiddle⟩

/-- What depends on the parser agrees if it does for related parsers. -/
theorem agrees_get {next : Parser σ ε → Parsing σ ε α} {nextOther : Parser τ ε → Parsing τ ε α}
    (h : ∀ parser twin, related parser twin → Agrees related (next parser) (nextOther twin)) :
    Agrees related (get >>= next) (get >>= nextOther) := by
  intro parser twin hpair
  rw [(get_answers parser).run_bind, (get_answers twin).run_bind]
  exact h parser twin hpair hpair

/-- Changes agree that keep parsers related. -/
theorem agrees_modify {change : Parser σ ε → Parser σ ε} {otherChange : Parser τ ε → Parser τ ε}
    (h : ∀ parser twin, related parser twin → related (change parser) (otherChange twin)) :
    Agrees related (modify change) (modify otherChange) :=
  fun parser twin hpair => .inr ⟨rfl, h parser twin hpair⟩

end Composition

section Results

/-- A call brings a result, apart from all budgets: it does so with some budget. -/
def Ends (call : Nat → Parsing σ ε α) (parser : Parser σ ε) (result : Except Interruption α)
    (after : Parser σ ε) : Prop :=
  result ≠ .error .exhausted ∧ ∃ budget, (call budget).run.run parser = (result, after)

/-- What a call brings with some budget, it brings. -/
theorem ends_of_run (call : Nat → Parsing σ ε α) {parser : Parser σ ε}
    {result : Except Interruption α} {budget : Nat}
    (h : ((call budget).run.run parser).1 = result) (hresult : result ≠ .error .exhausted) :
    Ends call parser result ((call budget).run.run parser).2 :=
  ⟨hresult, budget, Prod.ext h rfl⟩

/-- Every operation agrees with itself. -/
theorem agrees_refl (operation : Parsing σ ε α) : Agrees Eq operation operation :=
  fun _ _ hpair => .inr (hpair ▸ ⟨rfl, rfl⟩)

/-- An operation agrees with all that what it agrees with agrees with. -/
theorem Agrees.trans {first second third : Parsing σ ε α} (h : Agrees Eq first second)
    (hnext : Agrees Eq second third) : Agrees Eq first third := by
  rintro parser _ rfl
  have hfirst := h (rfl : parser = parser)
  have hsecond := hnext (rfl : parser = parser)
  rcases hfirst with hnone | ⟨hresult, hafter⟩
  · exact .inl hnone
  · rw [hresult, ← hafter] at hsecond
    exact hsecond

/-- More of a budget never changes what a call brings. -/
def Steady (call : Nat → Parsing σ ε α) : Prop :=
  ∀ budget larger, budget ≤ larger → Agrees Eq (call budget) (call larger)

/-- An operation that brings a result brings it also where it agrees with another one. -/
theorem Agrees.run_eq {operation other : Parsing σ ε α} (h : Agrees Eq operation other)
    {parser after : Parser σ ε} {result : Except Interruption α}
    (hrun : operation.run.run parser = (result, after)) (hresult : result ≠ .error .exhausted) :
    other.run.run parser = (result, after) := by
  obtain ⟨_, hother, rfl⟩ := h.exists_run rfl hrun hresult
  exact hother

/-- What a call brings, it brings with every larger budget. -/
theorem Ends.exists_forall {call : Nat → Parsing σ ε α} (hsteady : Steady call)
    {parser after : Parser σ ε} {result : Except Interruption α}
    (h : Ends call parser result after) :
    ∃ least, ∀ budget, least ≤ budget → (call budget).run.run parser = (result, after) := by
  obtain ⟨hresult, least, hrun⟩ := h
  exact ⟨least, fun budget hbudget => (hsteady least budget hbudget).run_eq hrun hresult⟩

/-- A call brings one result only. -/
theorem Ends.unique {call : Nat → Parsing σ ε α} (hsteady : Steady call)
    {parser after last : Parser σ ε} {result other : Except Interruption α}
    (h : Ends call parser result after) (hother : Ends call parser other last) :
    result = other ∧ after = last := by
  obtain ⟨least, hrun⟩ := h.exists_forall hsteady
  obtain ⟨more, hotherRun⟩ := hother.exists_forall hsteady
  have hfirst := hrun (max least more) (Nat.le_max_left ..)
  have hsecond := hotherRun (max least more) (Nat.le_max_right ..)
  exact Prod.mk.inj (hfirst.symm.trans hsecond)

end Results

/-- Related parsers have the same items in advance and the same rules, and stay related when
they read, consume and register the same. -/
structure Corresponds [ItemSource σ] [ItemSource τ] (related : Parser σ ε → Parser τ ε → Prop) :
    Prop where
  /-- The same items were read in advance. -/
  buffer : ∀ {parser twin}, related parser twin → twin.buffer = parser.buffer
  /-- The largest end so far is the same. -/
  lastEnd : ∀ {parser twin}, related parser twin → twin.lastEnd = parser.lastEnd
  /-- Expressions begin in the same ways. -/
  prefixes : ∀ {parser twin}, related parser twin → twin.prefixes = parser.prefixes
  /-- Expressions go on in the same ways. -/
  infixes : ∀ {parser twin}, related parser twin → twin.infixes = parser.infixes
  /-- The same is read from the sources. -/
  reads : ∀ {parser twin}, related parser twin →
    (pull.run.run twin).1 = (pull.run.run parser).1 ∧
      related (pull.run.run parser).2 (pull.run.run twin).2
  /-- The same items are kept. -/
  keep : ∀ {parser twin} buffer, related parser twin →
    related { parser with buffer } { twin with buffer }
  /-- The same is recorded. -/
  record : ∀ {parser twin} event, related parser twin →
    related (parser.record event) (twin.record event)
  /-- The same beginning is registered. -/
  registerPrefix : ∀ {parser twin} token parselet, related parser twin →
    related (parser.registerPrefix token parselet) (twin.registerPrefix token parselet)
  /-- The same continuation is registered. -/
  registerInfix : ∀ {parser twin} token power parselet, related parser twin →
    related (parser.registerInfix token power parselet) (twin.registerInfix token power parselet)

variable [ItemSource σ] [ItemSource τ] {related : Parser σ ε → Parser τ ε → Prop}

/-- Parsers correspond to each other in both directions. -/
theorem Corresponds.swap (h : Corresponds related) :
    Corresponds fun twin parser => related parser twin where
  buffer hpair := (h.buffer hpair).symm
  lastEnd hpair := (h.lastEnd hpair).symm
  prefixes hpair := (h.prefixes hpair).symm
  infixes hpair := (h.infixes hpair).symm
  reads hpair := ⟨(h.reads hpair).1.symm, (h.reads hpair).2⟩
  keep buffer hpair := h.keep buffer hpair
  record event hpair := h.record event hpair
  registerPrefix token parselet hpair := h.registerPrefix token parselet hpair
  registerInfix token power parselet hpair := h.registerInfix token power parselet hpair

/-- Every parser corresponds to itself. -/
theorem corresponds_eq : Corresponds (Eq : Parser σ ε → Parser σ ε → Prop) where
  buffer hpair := hpair ▸ rfl
  lastEnd hpair := hpair ▸ rfl
  prefixes hpair := hpair ▸ rfl
  infixes hpair := hpair ▸ rfl
  reads hpair := hpair ▸ ⟨rfl, rfl⟩
  keep _ hpair := hpair ▸ rfl
  record _ hpair := hpair ▸ rfl
  registerPrefix _ _ hpair := hpair ▸ rfl
  registerInfix _ _ _ hpair := hpair ▸ rfl

namespace Corresponds

variable (h : Corresponds related)

include h

/-- Reading agrees. -/
theorem agrees_pull : Agrees related pull pull :=
  fun _ _ hpair => .inr (h.reads hpair)

/-- Reading in advance agrees. -/
theorem agrees_fill (count : Nat) : Agrees related (fill count) (fill count) := by
  induction count with
  | zero => exact agrees_pure ()
  | succ count ih =>
    refine h.agrees_pull.bind fun item =>
      (agrees_modify fun parser twin hpair => ?_).bind fun _ => ih
    rw [h.buffer hpair]
    exact h.keep _ hpair

/-- Looking ahead agrees. -/
theorem agrees_lookAhead (distance : Nat) :
    Agrees related (lookAhead distance) (lookAhead distance) := by
  refine agrees_get fun parser twin hpair => ?_
  rw [h.buffer hpair]
  refine (h.agrees_fill _).bind fun _ => agrees_get fun parser twin hpair => ?_
  rw [h.buffer hpair, endItem, endItem, h.lastEnd hpair]
  exact agrees_pure _

/-- Taking the next item agrees. -/
theorem agrees_takeItem : Agrees related takeItem takeItem := by
  refine agrees_get fun parser twin hpair => ?_
  rw [h.buffer hpair]
  cases parser.buffer with
  | nil => exact h.agrees_pull
  | cons item rest =>
    exact Agrees.bind (fun _ _ _ => .inr ⟨rfl, h.keep rest hpair⟩) fun _ => agrees_pure item

/-- Consuming the next item agrees. -/
theorem agrees_advance : Agrees related advance advance := by
  refine h.agrees_takeItem.bind fun item => ?_
  refine (agrees_modify fun parser twin hpair => h.record _ hpair).bind fun _ => ?_
  cases item.isFailure with
  | true => exact agrees_throw _
  | false => exact agrees_pure item

/-- Matching a token agrees. -/
theorem agrees_matchToken (expected : Token) :
    Agrees related (matchToken expected) (matchToken expected) := by
  refine (h.agrees_lookAhead 0).bind fun ahead => ?_
  split
  · exact h.agrees_advance.bind fun _ => agrees_pure true
  · exact agrees_pure false

/-- Consuming an expected token agrees. -/
theorem agrees_consume (expected : Token) :
    Agrees related (consume expected) (consume expected) := by
  refine (h.agrees_lookAhead 0).bind fun ahead => ?_
  split
  · exact h.agrees_advance
  · exact agrees_throw _

/-- A token has the same power. -/
theorem infixPower?_eq {parser : Parser σ ε} {twin : Parser τ ε} (hpair : related parser twin) :
    twin.infixPower? = parser.infixPower? := by
  unfold infixPower?
  rw [h.infixes hpair]

/-- Asking for the binding power of the next token agrees. -/
theorem agrees_precedence : Agrees related precedence precedence := by
  refine (h.agrees_lookAhead 0).bind fun ahead => agrees_get fun parser twin hpair => ?_
  rw [h.infixPower?_eq hpair]
  exact agrees_pure _

section Expressions

variable {expression : Int32 → Parsing σ ε ε} {other : Int32 → Parsing τ ε ε}
  (hexpression : ∀ minimum, Agrees related (expression minimum) (other minimum))
  {budget larger : Nat} (hbudget : budget ≤ larger)

include hexpression hbudget

/-- Expressions with separators agree if single ones do. -/
theorem agrees_separated (minimum : Int32) (separator : Token) (members : Array ε) :
    Agrees related (separated expression minimum separator budget members)
      (separated other minimum separator larger members) := by
  induction budget generalizing larger members with
  | zero => exact agrees_exhausted _
  | succ budget ih =>
    obtain ⟨more, rfl⟩ : ∃ more, larger = more + 1 := ⟨larger - 1, by omega⟩
    refine (hexpression minimum).bind fun member => ?_
    refine (h.agrees_matchToken separator).bind fun found => ?_
    split
    · exact ih (Nat.le_of_succ_le_succ hbudget) _
    · exact agrees_pure _

/-- Carrying out a script agrees. -/
theorem agrees_play (script : Script ε) :
    Agrees related (play expression budget script) (play other larger script) := by
  induction script with
  | done result =>
    cases result with
    | ok answer => exact agrees_pure answer
    | error report => exact agrees_throw _
  | expression minimum resume ih => exact (hexpression minimum).attempt.bind ih
  | separated minimum separator resume ih =>
    exact (h.agrees_separated hexpression hbudget minimum separator #[]).attempt.bind ih
  | matchToken expected resume ih => exact (h.agrees_matchToken expected).attempt.bind ih
  | consume expected resume ih => exact (h.agrees_consume expected).attempt.bind ih
  | precedence resume ih => exact h.agrees_precedence.bind ih
  | lookAhead distance resume ih => exact (h.agrees_lookAhead distance).bind ih
  | infixPower token resume ih =>
    refine agrees_get fun parser twin hpair => ?_
    rw [h.infixPower?_eq hpair]
    exact ih _
  | registerPrefix token parselet rest _ ih =>
    exact (agrees_modify fun _ _ => h.registerPrefix token parselet).bind fun _ => ih
  | registerInfix token power parselet rest _ ih =>
    exact (agrees_modify fun _ _ => h.registerInfix token power parselet).bind fun _ => ih

/-- Beginning an expression agrees. -/
theorem agrees_begin : Agrees related (begin expression budget) (begin other larger) := by
  refine h.agrees_advance.bind fun item => agrees_get fun parser twin hpair => ?_
  rw [h.prefixes hpair]
  cases parser.prefixes.find? item.token with
  | none => exact agrees_throw _
  | some parselet => exact h.agrees_play hexpression hbudget (parselet item)

/-- Going on with an expression agrees. -/
theorem agrees_extend (left : ε) :
    Agrees related (extend expression budget left) (extend other larger left) := by
  refine h.agrees_advance.bind fun item => agrees_get fun parser twin hpair => ?_
  rw [h.infixes hpair]
  cases parser.infixes.find? item.token with
  | none => exact agrees_throw _
  | some rule => exact h.agrees_play hexpression hbudget (rule.parselet left item)

/-- Going on however often agrees. -/
theorem agrees_climb (minimum : Int32) {rounds more : Nat} (hrounds : rounds ≤ more) (left : ε) :
    Agrees related (climb expression budget minimum rounds left)
      (climb other larger minimum more left) := by
  induction rounds generalizing more left with
  | zero => exact agrees_exhausted _
  | succ rounds ih =>
    obtain ⟨rest, rfl⟩ : ∃ rest, more = rest + 1 := ⟨more - 1, by omega⟩
    refine h.agrees_precedence.bind fun power => ?_
    split
    · exact (h.agrees_extend hexpression hbudget left).bind fun extended =>
        ih (Nat.le_of_succ_le_succ hrounds) extended
    · exact agrees_pure left

end Expressions

end Corresponds

/-- Parses an expression, and does something in front of every call. -/
def watched (watch : Parsing σ ε Unit) : Nat → Int32 → Parsing σ ε ε
  | 0, _ => throw .exhausted
  | budget + 1, minimum => do
    watch
    let left ← begin (watched watch budget) budget
    climb (watched watch budget) budget minimum (budget + 1) left

/-- Nothing is done in front of the calls, which are the calls alone. -/
theorem watched_pure (budget : Nat) :
    watched (σ := σ) (ε := ε) (Pure.pure ()) budget = parseExpression budget := by
  induction budget with
  | zero => rfl
  | succ budget ih =>
    funext minimum
    rw [watched, ih, pure_bind]
    rfl

/-- Expressions agree if what is done in front of their calls does. -/
theorem Corresponds.agrees_watched (h : Corresponds related) {watch : Parsing σ ε Unit}
    {other : Parsing τ ε Unit} (hwatch : Agrees related watch other) {budget larger : Nat}
    (hbudget : budget ≤ larger) (minimum : Int32) :
    Agrees related (watched watch budget minimum) (watched other larger minimum) := by
  induction budget generalizing larger minimum with
  | zero => exact agrees_exhausted _
  | succ budget ih =>
    obtain ⟨more, rfl⟩ : ∃ more, larger = more + 1 := ⟨larger - 1, by omega⟩
    have hless := Nat.le_of_succ_le_succ hbudget
    have hexpression := fun minimum => ih hless minimum
    exact hwatch.bind fun _ => (h.agrees_begin hexpression hless).bind fun left =>
      h.agrees_climb hexpression hless minimum hbudget left

/-- Expressions agree. -/
theorem Corresponds.agrees_parseExpression (h : Corresponds related) {budget larger : Nat}
    (hbudget : budget ≤ larger) (minimum : Int32) :
    Agrees related (parseExpression budget minimum) (parseExpression larger minimum) := by
  rw [← watched_pure, ← watched_pure]
  exact h.agrees_watched (agrees_pure ()) hbudget minimum

/-- More of a budget never changes what parsing an expression brings. -/
theorem steady_parseExpression (minimum : Int32) :
    Steady fun budget => parseExpression (σ := σ) (ε := ε) budget minimum :=
  fun _ _ hbudget => corresponds_eq.agrees_parseExpression hbudget minimum

end LanguageKit.Parser
