import LanguageKit.Proofs.OperatorTrees
import LanguageKit.Proofs.UpcomingItems

/-!
# Parsing with an operator table

A parser that has registered the rules of an operator table reads every balanced
tree of the table from the items of the tree, so that a sequence of items has at
most one of them. The sequences the table speaks of have one, and it is what the
parser answers.
-/

namespace LanguageKit

/-- What is done once a token that begins an operand has been consumed. -/
def Beginning.parselet (item : Item) : Beginning → Script Tree
  | leaf => .accept (.leaf item)
  | unary minimum => .thenExpression minimum fun operand => .accept (.unary item operand)
  | group close =>
    .thenExpression 0 fun inner =>
      .thenConsume close fun closing => .accept (.group item inner closing)

/-- What is done once a token that goes on with an operand has been consumed. -/
def Continuation.parselet (left : Tree) (item : Item) : Continuation → Script Tree
  | trailing _ => .accept (.trailing left item)
  | binary power side =>
    .thenExpression (side.minimum power) fun right => .accept (.binary left item right)

/-- The rule of a continuation. -/
def Continuation.rule (continuation : Continuation) : InfixRule Tree :=
  ⟨continuation.power, fun left item => continuation.parselet left item⟩

/-- The same registry with other rules. -/
def Registry.mapRules {α β : Type} (f : α → β) (registry : Registry α) : Registry β :=
  registry.map fun entry => (entry.1, f entry.2)

namespace OperatorTable

/-- Registers all entries of a table in a parser. -/
def register {σ : Type} (table : OperatorTable) (parser : Parser σ Tree) : Parser σ Tree :=
  let begun := table.beginnings.foldl
    (fun parser entry => parser.registerPrefix entry.1 fun item => entry.2.parselet item) parser
  table.continuations.foldl
    (fun parser entry => parser.registerInfix entry.1 entry.2.power
      fun left item => entry.2.parselet left item) begun

/-- The rules of a table for beginning an expression. -/
def prefixRules (table : OperatorTable) : Registry (Item → Script Tree) :=
  (Registry.ofEntries table.beginnings).mapRules fun beginning item => beginning.parselet item

/-- The rules of a table for going on with an expression. -/
def infixRules (table : OperatorTable) : Registry (InfixRule Tree) :=
  (Registry.ofEntries table.continuations).mapRules Continuation.rule

end OperatorTable

namespace Registry

variable {α β : Type}

/-- A rule is found in its new form. -/
theorem find?_mapRules (f : α → β) (registry : Registry α) (token : Token) :
    (registry.mapRules f).find? token = (registry.find? token).map f := by
  induction registry with
  | nil => rfl
  | cons entry rest ih =>
    have hcons : mapRules f (entry :: rest) = (entry.1, f entry.2) :: mapRules f rest := rfl
    rw [hcons]
    unfold find?
    split
    · rfl
    · exact ih

/-- A rule can be registered in its new form. -/
theorem mapRules_put (f : α → β) (token : Token) (rule : α) (registry : Registry α) :
    (registry.put token rule).mapRules f = (registry.mapRules f).put token (f rule) := by
  induction registry with
  | nil => rfl
  | cons entry rest ih =>
    have hcons : mapRules f (entry :: rest) = (entry.1, f entry.2) :: mapRules f rest := rfl
    rw [hcons]
    unfold put
    split
    · rfl
    · rw [← ih]
      rfl

end Registry

namespace Parser

variable {σ ε α : Type}

/-- Registering how expressions begin, entry by entry. -/
theorem foldl_registerPrefix (f : α → Item → Script ε) (entries : List (Token × α))
    (parser : Parser σ ε) (registry : Registry α) :
    entries.foldl (fun parser entry => parser.registerPrefix entry.1 (f entry.2))
        { parser with prefixes := registry.mapRules f } =
      { parser with
        prefixes := (entries.foldl (fun registry entry => registry.put entry.1 entry.2)
          registry).mapRules f } := by
  induction entries generalizing registry with
  | nil => rfl
  | cons entry entries ih =>
    rw [List.foldl_cons, List.foldl_cons, ← ih, Registry.mapRules_put]
    rfl

/-- Registering how expressions go on, entry by entry. -/
theorem foldl_registerInfix (f : α → InfixRule ε) (entries : List (Token × α))
    (parser : Parser σ ε) (registry : Registry α) :
    entries.foldl
        (fun parser entry =>
          parser.registerInfix entry.1 (f entry.2).power (f entry.2).parselet)
        { parser with infixes := registry.mapRules f } =
      { parser with
        infixes := (entries.foldl (fun registry entry => registry.put entry.1 entry.2)
          registry).mapRules f } := by
  induction entries generalizing registry with
  | nil => rfl
  | cons entry entries ih =>
    rw [List.foldl_cons, List.foldl_cons, ← ih, Registry.mapRules_put]
    rfl

end Parser

namespace OperatorTable

variable {table : OperatorTable}

/-- A new parser with the rules of a table. -/
theorem register_ofSource {σ : Type} (source : σ) :
    table.register (Parser.ofSource source) =
      ⟨source, [], 0, table.prefixRules, table.infixRules, #[]⟩ := by
  have hbegun : table.beginnings.foldl
      (fun parser entry => parser.registerPrefix entry.1 fun item => entry.2.parselet item)
        (Parser.ofSource source) = ⟨source, [], 0, table.prefixRules, [], #[]⟩ :=
    Parser.foldl_registerPrefix (fun (beginning : Beginning) item => beginning.parselet item)
      table.beginnings (Parser.ofSource source) []
  unfold register
  dsimp only
  rw [hbegun]
  exact Parser.foldl_registerInfix Continuation.rule table.continuations
    ⟨source, [], 0, table.prefixRules, [], #[]⟩ []

/-- A beginning has its rule. -/
theorem find?_prefixRules {token : Token} {beginning : Beginning}
    (h : table.beginning? token = some beginning) :
    table.prefixRules.find? token = some fun item => beginning.parselet item := by
  have hfound : (Registry.ofEntries table.beginnings).find? token = some beginning := h
  rw [prefixRules, Registry.find?_mapRules, hfound, Option.map_some]

/-- A continuation has its rule. -/
theorem find?_infixRules (token : Token) :
    table.infixRules.find? token = (table.continuation? token).map Continuation.rule := by
  rw [infixRules, Registry.find?_mapRules]
  rfl

/-- The parser has the rules of the table, and it is going to consume these items and
then an end of the input. -/
abbrev Awaits (table : OperatorTable) (items : List Item) (parser : Parser (List Item) Tree) :
    Prop :=
  parser.Awaits table.prefixRules table.infixRules items

/-- The power of the first of some items. -/
def nextPower (table : OperatorTable) (items : List Item) : Int32 :=
  ((table.continuation? (Parser.nextToken items)).map Continuation.power).getD 0

/-- The power of an item that goes on. -/
theorem nextPower_cons {item : Item} {continuation : Continuation}
    (h : table.continuation? item.token = some continuation) (items : List Item) :
    table.nextPower (item :: items) = continuation.power := by
  have htoken : Parser.nextToken (item :: items) = item.token := rfl
  rw [nextPower, htoken, h, Option.map_some, Option.getD_some]

/-- The power of an item that does not go on. -/
theorem nextPower_cons_of_none {item : Item} (h : table.continuation? item.token = none)
    (items : List Item) : table.nextPower (item :: items) = 0 := by
  have htoken : Parser.nextToken (item :: items) = item.token := rfl
  rw [nextPower, htoken, h, Option.map_none, Option.getD_none]

/-- The end of the input has no power. -/
theorem nextPower_nil : table.nextPower [] = 0 := by
  have htoken : Parser.nextToken [] = .endOfInput := rfl
  rw [nextPower, htoken, continuation?_endOfInput, Option.map_none, Option.getD_none]

end OperatorTable

namespace OperatorTable

variable {table : OperatorTable} {parser : Parser (List Item) Tree} {behind : List Item}
  {expression : Int32 → Parsing (List Item) Tree Tree} {budget : Nat}

/-- The power of what comes next is read off the table. -/
theorem Awaits.precedence {items : List Item} (h : table.Awaits items parser) :
    ∃ after, Parser.Answers Parser.precedence parser (table.nextPower items) after ∧
      table.Awaits items after := by
  obtain ⟨after, hanswer, hafter⟩ := Parser.Awaits.precedence h
  refine ⟨after, ?_, hafter⟩
  rwa [find?_infixRules, Option.map_map] at hanswer

/-- An item that begins an operand is consumed, and its parselet does the rest. -/
theorem Awaits.begin {item : Item} {items : List Item} {beginning : Beginning} {tree : Tree}
    (h : table.Awaits (item :: items) parser)
    (hitem : table.beginning? item.token = some beginning)
    (hplay : ∀ {middle}, table.Awaits items middle → ∃ after,
      Parser.Answers (Parser.play expression budget (beginning.parselet item)) middle tree after ∧
        table.Awaits behind after) :
    ∃ after, Parser.Answers (Parser.begin expression budget) parser tree after ∧
      table.Awaits behind after := by
  have hfailure : item.isFailure = false := decide_eq_false (ne_failure_of_beginning? hitem)
  obtain ⟨middle, hadvance, hmiddle⟩ := Parser.Awaits.advance h hfailure
  obtain ⟨after, hanswer, hafter⟩ := hplay hmiddle
  refine ⟨after, hadvance.bind ?_, hafter⟩
  have hrule : middle.prefixes.find? item.token = some fun item => beginning.parselet item := by
    rw [hmiddle.prefixes_eq, find?_prefixRules hitem]
  have hget : Parser.Answers get middle middle middle := rfl
  refine hget.bind ?_
  rw [hrule]
  exact hanswer

/-- An item that goes on with an operand is consumed, and its parselet does the rest. -/
theorem Awaits.extend {item : Item} {items : List Item} {continuation : Continuation}
    {left tree : Tree} (h : table.Awaits (item :: items) parser)
    (hitem : table.continuation? item.token = some continuation)
    (hplay : ∀ {middle}, table.Awaits items middle → ∃ after,
      Parser.Answers (Parser.play expression budget (continuation.parselet left item)) middle tree
        after ∧ table.Awaits behind after) :
    ∃ after, Parser.Answers (Parser.extend expression budget left) parser tree after ∧
      table.Awaits behind after := by
  have hterminal := not_terminal_of_continuation? hitem
  have hfailure : item.isFailure = false := by
    refine decide_eq_false fun htoken => ?_
    rw [htoken] at hterminal
    exact absurd hterminal (by decide)
  obtain ⟨middle, hadvance, hmiddle⟩ := Parser.Awaits.advance h hfailure
  obtain ⟨after, hanswer, hafter⟩ := hplay hmiddle
  refine ⟨after, hadvance.bind ?_, hafter⟩
  have hrule : middle.infixes.find? item.token = some continuation.rule := by
    rw [hmiddle.infixes_eq, find?_infixRules, hitem, Option.map_some]
  have hget : Parser.Answers get middle middle middle := rfl
  refine hget.bind ?_
  rw [hrule]
  exact hanswer

/-- An expression ends before what does not bind above its minimum. -/
theorem Awaits.climb_stop (h : table.Awaits behind parser) {minimum : Int32}
    (hstop : table.nextPower behind ≤ minimum) (loops : Nat) (left : Tree) :
    ∃ after,
      Parser.Answers (Parser.climb expression budget minimum (loops + 1) left) parser left after ∧
        table.Awaits behind after := by
  obtain ⟨after, hpower, hafter⟩ := h.precedence
  refine ⟨after, hpower.bind ?_, hafter⟩
  rw [if_neg (Int32.not_lt.mpr hstop)]
  rfl

/-- An expression goes on with what binds above its minimum. -/
theorem Awaits.climb_step {item : Item} {items : List Item} {continuation : Continuation}
    {left tree : Tree} (h : table.Awaits (item :: items) parser)
    (hitem : table.continuation? item.token = some continuation) {minimum : Int32}
    (hbinds : minimum < continuation.power)
    (hplay : ∀ {middle}, table.Awaits items middle → ∃ after,
      Parser.Answers (Parser.play expression budget (continuation.parselet left item)) middle tree
        after ∧ table.Awaits behind after) (loops : Nat) :
    ∃ after, table.Awaits behind after ∧
      (Parser.climb expression budget minimum (loops + 1) left).run.run parser =
        (Parser.climb expression budget minimum loops tree).run.run after := by
  obtain ⟨looked, hpower, hlooked⟩ := h.precedence
  obtain ⟨after, hextend, hafter⟩ := hlooked.extend hitem hplay
  refine ⟨after, hafter, (hpower.run_bind _).trans ?_⟩
  rw [nextPower_cons hitem, if_pos hbinds]
  exact hextend.run_bind _

end OperatorTable

/-- The number of operators on the left spine: how often an expression goes on until
it is the tree. -/
def Tree.extensions : Tree → Nat
  | leaf _ | unary _ _ | group _ _ _ => 0
  | trailing operand _ => operand.extensions + 1
  | binary left _ _ => left.extensions + 1

/-- Every operator on the left spine is an item of its own, and not the first one. -/
theorem Tree.extensions_lt (tree : Tree) : tree.extensions < tree.items.length := by
  induction tree with
  | leaf item => exact Nat.zero_lt_one
  | unary item operand ih => exact Nat.zero_lt_succ _
  | group opening inner closing ih => exact Nat.zero_lt_succ _
  | trailing operand item ih =>
    rw [extensions, items, List.length_append, List.length_singleton]
    omega
  | binary left item right ihleft ihright =>
    rw [extensions, items, List.length_append, List.length_cons]
    omega

namespace OperatorTable

/-- From the items of a tree, an expression is begun and goes on until it is the
tree. From there it goes on with what is behind. -/
def Runs (table : OperatorTable) (tree : Tree) : Prop :=
  ∀ {budget minimum behind parser} (loops : Nat), tree.items.length ≤ budget + 1 →
    table.BindsAbove minimum tree → table.YieldsTo (table.nextPower behind) tree →
    table.Awaits (tree.items ++ behind) parser →
    ∃ after, table.Awaits behind after ∧
      (Parser.begin (Parser.parseExpression budget) budget >>=
        Parser.climb (Parser.parseExpression budget) budget minimum
          (tree.extensions + loops)).run.run parser =
        (Parser.climb (Parser.parseExpression budget) budget minimum loops tree).run.run after

variable {table : OperatorTable} {parser : Parser (List Item) Tree} {behind : List Item}
  {budget : Nat} {tree : Tree}

/-- If nothing on the left spine is to go on, beginning the expression is enough. -/
theorem runs_of_begin (hextensions : tree.extensions = 0)
    (h : ∀ {budget behind parser}, tree.items.length ≤ budget + 1 →
      table.YieldsTo (table.nextPower behind) tree → table.Awaits (tree.items ++ behind) parser →
      ∃ after, Parser.Answers (Parser.begin (Parser.parseExpression budget) budget) parser tree
        after ∧ table.Awaits behind after) : table.Runs tree := by
  intro budget minimum behind parser loops hbudget _ hyields hparser
  obtain ⟨after, hanswer, hafter⟩ := h hbudget hyields hparser
  refine ⟨after, hafter, (hanswer.run_bind _).trans ?_⟩
  rw [hextensions, Nat.zero_add]

/-- A tree is parsed from its items if what is behind does not bind above the
minimum. -/
theorem Runs.parseExpression (h : table.Runs tree) {minimum : Int32}
    (hbudget : tree.items.length ≤ budget) (hbinds : table.BindsAbove minimum tree)
    (hyields : table.YieldsTo (table.nextPower behind) tree)
    (hstop : table.nextPower behind ≤ minimum)
    (hparser : table.Awaits (tree.items ++ behind) parser) :
    ∃ after, Parser.Answers (Parser.parseExpression budget minimum) parser tree after ∧
      table.Awaits behind after := by
  have hextensions := tree.extensions_lt
  obtain ⟨depth, rfl⟩ : ∃ depth, budget = depth + 1 := ⟨budget - 1, by omega⟩
  obtain ⟨spare, hspare⟩ : ∃ spare, depth + 1 = tree.extensions + (spare + 1) :=
    ⟨depth - tree.extensions, by omega⟩
  obtain ⟨middle, hmiddle, hrun⟩ := h (spare + 1) hbudget hbinds hyields hparser
  obtain ⟨after, hanswer, hafter⟩ := hmiddle.climb_stop hstop spare tree
  refine ⟨after, Eq.trans ?_ (hrun.trans hanswer), hafter⟩
  rw [← hspare]
  rfl

/-- A parselet that takes an expression goes on from its tree. -/
theorem Awaits.play_thenExpression {operand : Tree} {minimum : Int32} {items : List Item}
    {resume : Tree → Script Tree} (h : table.Runs operand)
    (hbudget : operand.items.length ≤ budget) (hbinds : table.BindsAbove minimum operand)
    (hyields : table.YieldsTo (table.nextPower items) operand)
    (hstop : table.nextPower items ≤ minimum)
    (hresume : ∀ {middle}, table.Awaits items middle → ∃ after,
      Parser.Answers (Parser.play (Parser.parseExpression budget) budget (resume operand)) middle
        tree after ∧ table.Awaits behind after)
    (hparser : table.Awaits (operand.items ++ items) parser) :
    ∃ after, Parser.Answers (Parser.play (Parser.parseExpression budget) budget
      (.thenExpression minimum resume)) parser tree after ∧ table.Awaits behind after := by
  obtain ⟨middle, hoperand, hmiddle⟩ := h.parseExpression hbudget hbinds hyields hstop hparser
  obtain ⟨after, hanswer, hafter⟩ := hresume hmiddle
  exact ⟨after, hoperand.attempt.bind hanswer, hafter⟩

/-- Accepting ends a script with what has been read so far. -/
theorem Awaits.play_accept {expression : Int32 → Parsing (List Item) Tree Tree}
    (h : table.Awaits behind parser) : ∃ after,
      Parser.Answers (Parser.play expression budget (.accept tree)) parser tree after ∧
        table.Awaits behind after :=
  ⟨parser, rfl, h⟩

/-- A token that is an operand is read at once. -/
theorem runs_leaf {item : Item} (h : table.beginning? item.token = some .leaf) :
    table.Runs (.leaf item) :=
  runs_of_begin rfl fun _ _ hparser => hparser.begin h fun hmiddle => hmiddle.play_accept

/-- An operator before its operand goes on with the operand up to where the operator
yields. -/
theorem runs_unary {item : Item} {operand : Tree} {minimum : Int32}
    (h : table.beginning? item.token = some (.unary minimum))
    (hbinds : table.BindsAbove minimum operand) (hoperand : table.Runs operand) :
    table.Runs (.unary item operand) := by
  refine runs_of_begin rfl fun {budget behind parser} hbudget hyields hparser => ?_
  obtain ⟨hstop, hyields⟩ := (yieldsTo_unary h).mp hyields
  have hlength : operand.items.length ≤ budget := Nat.le_of_succ_le_succ hbudget
  refine hparser.begin h fun hmiddle => ?_
  exact hmiddle.play_thenExpression hoperand hlength hbinds hyields hstop
    fun hend => hend.play_accept

/-- A group goes on with what it encloses up to the closing token. -/
theorem runs_group {opening closing : Item} {inner : Tree}
    (h : table.beginning? opening.token = some (.group closing.token))
    (hinner : table.Runs inner) : table.Runs (.group opening inner closing) := by
  refine runs_of_begin rfl fun {budget behind parser} hbudget _ hparser => ?_
  have hlength : inner.items.length ≤ budget := by
    rw [Tree.items, List.length_cons, List.length_append, List.length_singleton] at hbudget
    omega
  have hclose : table.nextPower (closing :: behind) = 0 :=
    nextPower_cons_of_none (continuation?_close h) behind
  have hitems : (Tree.group opening inner closing).items ++ behind =
      opening :: (inner.items ++ closing :: behind) := by
    rw [Tree.items, List.cons_append, List.append_assoc, List.singleton_append]
  rw [hitems] at hparser
  refine hparser.begin h fun hmiddle => ?_
  refine hmiddle.play_thenExpression hinner hlength (bindsAbove_zero inner) ?_ ?_ ?_
  · rw [hclose]
    exact yieldsTo_zero inner
  · exact Int32.le_of_eq hclose
  · intro last hlast
    have hfailure : closing.isFailure = false := decide_eq_false (close_ne_failure h)
    obtain ⟨after, hconsume, hafter⟩ := Parser.Awaits.consume hlast hfailure
    exact ⟨after, hconsume.attempt.bind rfl, hafter⟩

/-- An operator behind its operand takes the tree that has been read. -/
theorem runs_trailing {item : Item} {operand : Tree} {power : Int32}
    (h : table.continuation? item.token = some (.trailing power))
    (hyields : table.YieldsTo power operand) (hoperand : table.Runs operand) :
    table.Runs (.trailing operand item) := by
  intro budget minimum behind parser loops hbudget hbinds _ hparser
  obtain ⟨hpower, hbinds⟩ := (bindsAbove_trailing h).mp hbinds
  rw [Tree.items, List.length_append, List.length_singleton] at hbudget
  rw [Tree.items, List.append_assoc, List.singleton_append] at hparser
  have hlength : operand.items.length ≤ budget + 1 := by omega
  have hnext : table.YieldsTo (table.nextPower (item :: behind)) operand := by
    rw [nextPower_cons h]
    exact hyields
  obtain ⟨middle, hmiddle, hfirst⟩ := hoperand (loops + 1) hlength hbinds hnext hparser
  obtain ⟨after, hafter, hlast⟩ :=
    hmiddle.climb_step h hpower (fun hend => hend.play_accept) loops
  refine ⟨after, hafter, Eq.trans ?_ (hfirst.trans hlast)⟩
  rw [Tree.extensions, Nat.add_right_comm, Nat.add_assoc]

/-- An operator between its operands takes the tree that has been read, and goes on
with the right operand up to where the operator yields. -/
theorem runs_binary {item : Item} {left right : Tree} {power : Int32} {side : Associativity}
    (h : table.continuation? item.token = some (.binary power side))
    (hyieldsLeft : table.YieldsTo power left) (hleft : table.Runs left)
    (hbindsRight : table.BindsAbove (side.minimum power) right) (hright : table.Runs right) :
    table.Runs (.binary left item right) := by
  intro budget minimum behind parser loops hbudget hbinds hyields hparser
  obtain ⟨hpower, hbinds⟩ := (bindsAbove_binary h).mp hbinds
  obtain ⟨hstop, hyields⟩ := (yieldsTo_binary h).mp hyields
  rw [Tree.items, List.length_append, List.length_cons] at hbudget
  rw [Tree.items, List.append_assoc, List.cons_append] at hparser
  have hleftPositive := left.extensions_lt
  have hleftLength : left.items.length ≤ budget + 1 := by omega
  have hrightLength : right.items.length ≤ budget := by omega
  have hnext : table.YieldsTo (table.nextPower (item :: (right.items ++ behind))) left := by
    rw [nextPower_cons h]
    exact hyieldsLeft
  obtain ⟨middle, hmiddle, hfirst⟩ := hleft (loops + 1) hleftLength hbinds hnext hparser
  obtain ⟨after, hafter, hlast⟩ :=
    hmiddle.climb_step h hpower
      (fun hend => hend.play_thenExpression hright hrightLength hbindsRight hyields hstop
        fun hend => hend.play_accept) loops
  refine ⟨after, hafter, Eq.trans ?_ (hfirst.trans hlast)⟩
  rw [Tree.extensions, Nat.add_right_comm, Nat.add_assoc]

/-- Every balanced tree of a table is read from its items. -/
theorem Admits.runs (hadmits : table.Admits tree) (hbalanced : table.Balanced tree) :
    table.Runs tree := by
  induction hadmits with
  | leaf h => exact runs_leaf h
  | unary h hoperand ih =>
    obtain ⟨hbinds, hoperand⟩ := (balanced_unary h).mp hbalanced
    exact runs_unary h hbinds (ih hoperand)
  | group h hinner ih => exact runs_group h (ih (balanced_group.mp hbalanced))
  | trailing h hoperand ih =>
    obtain ⟨hyields, hoperand⟩ := (balanced_trailing h).mp hbalanced
    exact runs_trailing h hyields (ih hoperand)
  | binary h hleft hright ihleft ihright =>
    obtain ⟨⟨hyields, hleft⟩, hbinds, hright⟩ := (balanced_binary h).mp hbalanced
    exact runs_binary h hyields (ihleft hleft) hbinds (ihright hright)

/-- A new parser with the rules of a table awaits the items of its list up to an end
of the input. -/
theorem awaits_register (table : OperatorTable) {items rest : List Item}
    (hrest : ∀ item ∈ rest.head?, item.isEnd = true) :
    table.Awaits items (table.register (Parser.ofSource (items ++ rest))) := by
  rw [register_ofSource]
  exact ⟨rfl, rfl, rest, rfl, hrest⟩

/-- A balanced tree is what parsing its items answers. -/
theorem Reads.parse {items rest : List Item} (h : table.Reads items tree)
    (hrest : ∀ item ∈ rest.head?, item.isEnd = true) (hbudget : items.length ≤ budget) :
    ((Parser.parse budget).run.run
      (table.register (Parser.ofSource (items ++ rest)))).1 = .ok tree := by
  have hparser : table.Awaits (tree.items ++ [])
      (table.register (Parser.ofSource (items ++ rest))) := by
    rw [List.append_nil, h.items_eq]
    exact table.awaits_register hrest
  have hlength : tree.items.length ≤ budget := by
    rw [h.items_eq]
    exact hbudget
  have hyields : table.YieldsTo (table.nextPower []) tree := by
    rw [nextPower_nil]
    exact yieldsTo_zero tree
  have hruns : table.Runs tree := h.admits.runs h.balanced
  obtain ⟨middle, hexpression, hmiddle⟩ := hruns.parseExpression hlength (bindsAbove_zero tree)
    hyields (Int32.le_of_eq nextPower_nil) hparser
  obtain ⟨item, after, hconsume⟩ := Parser.Awaits.consume_endOfInput hmiddle
  have hparse : Parser.Answers (Parser.parse budget)
      (table.register (Parser.ofSource (items ++ rest))) tree after :=
    hexpression.bind (hconsume.bind rfl)
  have hrun : (Parser.parse budget).run.run (table.register (Parser.ofSource (items ++ rest))) =
      (.ok tree, after) := hparse
  rw [hrun]

/-- A sequence of items is read as one balanced tree at most. -/
theorem Reads.unique {items : List Item} {other : Tree} (h : table.Reads items tree)
    (hother : table.Reads items other) : other = tree := by
  have hrest : ∀ item ∈ ([] : List Item).head?, item.isEnd = true := fun _ hitem => nomatch hitem
  have hparse := h.parse hrest (Nat.le_refl items.length)
  rw [hother.parse hrest (Nat.le_refl items.length)] at hparse
  exact Except.ok.inj hparse

/-- Every sequence of operands and binary operators, with an end of the input behind
it, has exactly one balanced tree, and this tree is what parsing answers. It is
enough that the budget is the number of items. -/
theorem parse_sequence (table : OperatorTable) {items rest : List Item}
    (hitems : table.Spells .sequence items) (hrest : ∀ item ∈ rest.head?, item.isEnd = true) :
    ∃ tree, (∀ other, table.Reads items other ↔ other = tree) ∧
      ∀ budget, items.length ≤ budget →
        ((Parser.parse budget).run.run
          (table.register (Parser.ofSource (items ++ rest)))).1 = .ok tree := by
  obtain ⟨tree, htree⟩ := hitems.exists_reads
  refine ⟨tree, fun other => ⟨htree.unique, fun heq => heq ▸ htree⟩, ?_⟩
  exact fun budget hbudget => htree.parse hrest hbudget

/-- A table with a sign that takes everything behind it, a sum and a power that
associate on different sides, a mark behind its operand, and groups. -/
def mixedTable : OperatorTable where
  beginnings := [(⟨"x"⟩, .leaf), (⟨"-"⟩, .unary 0), (⟨"("⟩, .group ⟨")"⟩)]
  continuations := [(⟨"+"⟩, .binary 1 .left), (⟨"^"⟩, .binary 2 .right), (⟨"!"⟩, .trailing 1)]
  beginning_ne_failure := by decide
  continuation_not_terminal := by decide
  unary_nonneg := by simp
  close_inert := by simp [Token.failure]
  one_le_power := by decide

/-- The items of `x ^ - x + ( x ) !`. -/
def mixedItems : List Item :=
  [⟨"x"⟩, ⟨"^"⟩, ⟨"-"⟩, ⟨"x"⟩, ⟨"+"⟩, ⟨"("⟩, ⟨"x"⟩, ⟨")"⟩, ⟨"!"⟩].map Item.bare

/-- The items are a sequence of three operands. -/
theorem spells_mixedItems : mixedTable.Spells .sequence mixedItems := by
  have hleaf : mixedTable.Spells .atom [.bare ⟨"x"⟩] := .leaf (by decide)
  have hplain : mixedTable.Spells .operand ([] ++ [.bare ⟨"x"⟩] ++ []) :=
    .operand (by simp) hleaf (by simp)
  have hsigned : mixedTable.Spells .operand ([.bare ⟨"-"⟩] ++ [.bare ⟨"x"⟩] ++ []) :=
    .operand (by simpa using ⟨0, by decide⟩) hleaf (by simp)
  have hgroup : mixedTable.Spells .atom
      (.bare ⟨"("⟩ :: (([] ++ [.bare ⟨"x"⟩] ++ []) ++ [.bare ⟨")"⟩])) :=
    .group (by decide) (.single hplain)
  have hmarked : mixedTable.Spells .operand
      ([] ++ (.bare ⟨"("⟩ :: (([] ++ [.bare ⟨"x"⟩] ++ []) ++ [.bare ⟨")"⟩])) ++ [.bare ⟨"!"⟩]) :=
    .operand (by simp) hgroup (by simpa using ⟨1, by decide⟩)
  have hpower : mixedTable.IsBinary (.bare ⟨"^"⟩) := ⟨2, .right, by decide⟩
  have hsum : mixedTable.IsBinary (.bare ⟨"+"⟩) := ⟨1, .left, by decide⟩
  exact .more (.more (.single hplain) hpower hsigned) hsum hmarked

/-- The sign takes the sum and the mark, though it stands behind the power. -/
theorem parse_sequence_mixed :
    mixedTable.Spells .sequence mixedItems ∧
      (∀ item ∈ [Item.bare .endOfInput].head?, item.isEnd = true) ∧
      ∃ tree, (∀ other, mixedTable.Reads mixedItems other ↔ other = tree) ∧
        ∀ budget, mixedItems.length ≤ budget →
          ((Parser.parse budget).run.run (mixedTable.register
            (Parser.ofSource (mixedItems ++ [Item.bare .endOfInput])))).1 = .ok tree := by
  have hrest : ∀ item ∈ [Item.bare .endOfInput].head?, item.isEnd = true := by
    rintro item ⟨⟩
    rfl
  exact ⟨spells_mixedItems, hrest, parse_sequence mixedTable spells_mixedItems hrest⟩

end OperatorTable

end LanguageKit
