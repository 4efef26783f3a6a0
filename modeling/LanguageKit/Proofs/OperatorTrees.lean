import LanguageKit.Parser

/-!
# Operator tables and their trees

A table says which tokens begin an operand and which go on with one, how tightly
the latter bind, and on which side binary operators associate. Its trees record
all their items. A tree is balanced when its operators bind as the table says:
those on the left spine of a right operand bind more tightly than the minimum of
that operand, and no minimum on the right spine of a left operand is below the
power of its operator. Every sequence of operands and binary operators has a
balanced tree.
-/

namespace LanguageKit

/-- How a token begins an operand. -/
inductive Beginning where
  /-- It is the operand. -/
  | leaf
  /-- An operand with a minimum binding power follows. -/
  | unary (minimum : Int32)
  /-- An expression and a closing token follow. -/
  | group (close : Token)
  deriving DecidableEq

/-- The side on which a binary operator associates with itself. -/
inductive Associativity where
  /-- The operator on the left is carried out first. -/
  | left
  /-- The operator on the right is carried out first. -/
  | right
  deriving DecidableEq

/-- The minimum binding power of the right operand. -/
def Associativity.minimum (power : Int32) : Associativity → Int32
  | left => power
  | right => power - 1

/-- How a token goes on with an operand. -/
inductive Continuation where
  /-- With nothing more. -/
  | trailing (power : Int32)
  /-- With a right operand. -/
  | binary (power : Int32) (side : Associativity)
  deriving DecidableEq

/-- How tightly a continuation binds. -/
def Continuation.power : Continuation → Int32
  | trailing power => power
  | binary power _ => power

/-- The registry that registering entries in order leaves. -/
def Registry.ofEntries {α : Type} (entries : List (Token × α)) : Registry α :=
  entries.foldl (fun registry entry => registry.put entry.1 entry.2) []

/-- A table of operators. Entries are registered in order, so that a token has at
most one beginning and at most one continuation. -/
structure OperatorTable where
  /-- How tokens begin operands. -/
  beginnings : List (Token × Beginning)
  /-- How tokens go on with operands. -/
  continuations : List (Token × Continuation)
  /-- A scanning failure begins nothing. -/
  beginning_ne_failure : ∀ entry ∈ beginnings, entry.1 ≠ .failure
  /-- The end of the input and a scanning failure go on with nothing. -/
  continuation_not_terminal : ∀ entry ∈ continuations, entry.1.isTerminal = false
  /-- No operand has a minimum below zero. -/
  unary_nonneg : ∀ entry ∈ beginnings, ∀ minimum, entry.2 = .unary minimum → 0 ≤ minimum
  /-- A scanning failure closes nothing, and what closes a group goes on with
  nothing. -/
  close_inert : ∀ entry ∈ beginnings, ∀ close, entry.2 = .group close →
    close ≠ .failure ∧ ∀ other ∈ continuations, other.1 ≠ close
  /-- Every power is positive. -/
  one_le_power : ∀ entry ∈ continuations, 1 ≤ entry.2.power

/-- An expression with all its items. -/
inductive Tree where
  /-- A token that is an operand. -/
  | leaf (item : Item)
  /-- An operator before its operand. -/
  | unary (item : Item) (operand : Tree)
  /-- An expression between an opening and a closing token. -/
  | group (opening : Item) (inner : Tree) (closing : Item)
  /-- An operator behind its operand. -/
  | trailing (operand : Tree) (item : Item)
  /-- An operator between its operands. -/
  | binary (left : Tree) (item : Item) (right : Tree)
  deriving DecidableEq

namespace Tree

/-- The items of a tree, from left to right. -/
def items : Tree → List Item
  | leaf item => [item]
  | unary item operand => item :: operand.items
  | group opening inner closing => opening :: (inner.items ++ [closing])
  | trailing operand item => operand.items ++ [item]
  | binary left item right => left.items ++ item :: right.items

/-- The nodes of a tree. -/
def nodes : Tree → List Tree
  | leaf item => [leaf item]
  | unary item operand => unary item operand :: operand.nodes
  | group opening inner closing => group opening inner closing :: inner.nodes
  | trailing operand item => trailing operand item :: operand.nodes
  | binary left item right => binary left item right :: (left.nodes ++ right.nodes)

/-- What stands to the left of the operator of a node. -/
def leftOperand? : Tree → Option Tree
  | trailing operand _ => some operand
  | binary left _ _ => some left
  | leaf _ | unary _ _ | group _ _ _ => none

/-- What stands to the right of the operator of a node. -/
def rightOperand? : Tree → Option Tree
  | unary _ operand => some operand
  | binary _ _ right => some right
  | leaf _ | group _ _ _ | trailing _ _ => none

/-- A tree, its left operand, the left operand of that one, and so on. -/
def leftSpine : Tree → List Tree
  | leaf item => [leaf item]
  | unary item operand => [unary item operand]
  | group opening inner closing => [group opening inner closing]
  | trailing operand item => trailing operand item :: operand.leftSpine
  | binary left item right => binary left item right :: left.leftSpine

/-- A tree, its right operand, the right operand of that one, and so on. -/
def rightSpine : Tree → List Tree
  | leaf item => [leaf item]
  | unary item operand => unary item operand :: operand.rightSpine
  | group opening inner closing => [group opening inner closing]
  | trailing operand item => [trailing operand item]
  | binary left item right => binary left item right :: right.rightSpine

end Tree

namespace OperatorTable

variable (table : OperatorTable)

/-- How a token begins an operand, if it does. -/
def beginning? (token : Token) : Option Beginning :=
  (Registry.ofEntries table.beginnings).find? token

/-- How a token goes on with an operand, if it does. -/
def continuation? (token : Token) : Option Continuation :=
  (Registry.ofEntries table.continuations).find? token

/-- The power of an operator with a left operand. -/
def power? : Tree → Option Int32
  | .trailing _ item | .binary _ item _ => (table.continuation? item.token).map Continuation.power
  | .leaf _ | .unary _ _ | .group _ _ _ => none

/-- The minimum of an operator with a right operand. -/
def minimum? : Tree → Option Int32
  | .unary item _ =>
    match table.beginning? item.token with
    | some (.unary minimum) => some minimum
    | _ => none
  | .binary _ item _ =>
    match table.continuation? item.token with
    | some (.binary power side) => some (side.minimum power)
    | _ => none
  | .leaf _ | .group _ _ _ | .trailing _ _ => none

/-- The trees in which every item has the place its token has in the table. -/
inductive Admits : Tree → Prop where
  /-- A token that is an operand. -/
  | leaf {item : Item} (h : table.beginning? item.token = some .leaf) : Admits (.leaf item)
  /-- An operator before its operand. -/
  | unary {item : Item} {operand : Tree} {minimum : Int32}
      (h : table.beginning? item.token = some (.unary minimum)) (hoperand : Admits operand) :
      Admits (.unary item operand)
  /-- An expression between an opening token and the one that closes it. -/
  | group {opening closing : Item} {inner : Tree}
      (h : table.beginning? opening.token = some (.group closing.token)) (hinner : Admits inner) :
      Admits (.group opening inner closing)
  /-- An operator behind its operand. -/
  | trailing {item : Item} {operand : Tree} {power : Int32}
      (h : table.continuation? item.token = some (.trailing power)) (hoperand : Admits operand) :
      Admits (.trailing operand item)
  /-- An operator between its operands. -/
  | binary {item : Item} {left right : Tree} {power : Int32} {side : Associativity}
      (h : table.continuation? item.token = some (.binary power side)) (hleft : Admits left)
      (hright : Admits right) : Admits (.binary left item right)

/-- Every operator on the left spine binds more tightly than a minimum. -/
def BindsAbove (minimum : Int32) (tree : Tree) : Prop :=
  ∀ node ∈ tree.leftSpine, ∀ power ∈ table.power? node, minimum < power

/-- No minimum on the right spine is below a power. -/
def YieldsTo (power : Int32) (tree : Tree) : Prop :=
  ∀ node ∈ tree.rightSpine, ∀ minimum ∈ table.minimum? node, power ≤ minimum

/-- The operator of a node binds as the table says. -/
structure Bound (node : Tree) : Prop where
  /-- What is on the left spine of the right operand binds above its minimum. -/
  right : ∀ right ∈ node.rightOperand?, ∀ minimum ∈ table.minimum? node,
    table.BindsAbove minimum right
  /-- What is on the right spine of the left operand yields to the operator. -/
  left : ∀ left ∈ node.leftOperand?, ∀ power ∈ table.power? node, table.YieldsTo power left

/-- All operators of a tree bind as the table says. -/
def Balanced (tree : Tree) : Prop := ∀ node ∈ tree.nodes, table.Bound node

/-- A balanced tree of the table that reads as a list of items. -/
structure Reads (items : List Item) (tree : Tree) : Prop where
  /-- Every item is in its place. -/
  admits : table.Admits tree
  /-- The operators bind as the table says. -/
  balanced : table.Balanced tree
  /-- From left to right, the tree has these items. -/
  items_eq : tree.items = items

/-- The parts of which a sequence of items is made. -/
inductive Phrase where
  /-- A leaf or a group. -/
  | atom
  /-- An atom with operators before and behind it. -/
  | operand
  /-- Operands with a binary operator between each two of them. -/
  | sequence

/-- The item is an operator that stands before an operand. -/
def IsUnary (item : Item) : Prop :=
  ∃ minimum, table.beginning? item.token = some (.unary minimum)

/-- The item is an operator that stands behind an operand. -/
def IsTrailing (item : Item) : Prop :=
  ∃ power, table.continuation? item.token = some (.trailing power)

/-- The item is an operator that stands between operands. -/
def IsBinary (item : Item) : Prop :=
  ∃ power side, table.continuation? item.token = some (.binary power side)

/-- The items that make a phrase, whatever the powers of the operators are. -/
inductive Spells : Phrase → List Item → Prop where
  /-- A token that is an operand. -/
  | leaf {item : Item} (h : table.beginning? item.token = some .leaf) : Spells .atom [item]
  /-- A sequence between an opening token and the one that closes it. -/
  | group {opening closing : Item} {inner : List Item}
      (h : table.beginning? opening.token = some (.group closing.token))
      (hinner : Spells .sequence inner) : Spells .atom (opening :: (inner ++ [closing]))
  /-- An atom with operators before and behind it. -/
  | operand {before atom behind : List Item} (hbefore : ∀ item ∈ before, table.IsUnary item)
      (hatom : Spells .atom atom) (hbehind : ∀ item ∈ behind, table.IsTrailing item) :
      Spells .operand (before ++ atom ++ behind)
  /-- One operand. -/
  | single {items : List Item} (h : Spells .operand items) : Spells .sequence items
  /-- One more operand behind a binary operator. -/
  | more {items operand : List Item} {item : Item} (hitems : Spells .sequence items)
      (hitem : table.IsBinary item) (hoperand : Spells .operand operand) :
      Spells .sequence (items ++ item :: operand)

end OperatorTable

/-- No minimum of a right operand is negative. -/
theorem Associativity.zero_le_minimum {power : Int32} (h : 1 ≤ power) (side : Associativity) :
    0 ≤ side.minimum power := by
  have hpower : 1 ≤ power.toInt := Int32.le_iff_toInt_le.mp h
  cases side with
  | left =>
    rw [Associativity.minimum, Int32.le_iff_toInt_le, Int32.toInt_zero]
    omega
  | right =>
    have hsub : (power - 1).toInt = power.toInt - 1 :=
      Int32.toInt_sub_of_le power 1 (by decide) h
    rw [Associativity.minimum, Int32.le_iff_toInt_le, hsub, Int32.toInt_zero]
    omega

section Entries

variable {α : Type}

/-- Registering an entry leaves no other new entry. -/
theorem Registry.mem_put {token : Token} {rule : α} {registry : Registry α}
    {entry : Token × α} (h : entry ∈ registry.put token rule) :
    entry = (token, rule) ∨ entry ∈ registry := by
  induction registry with
  | nil => exact Or.inl (List.mem_singleton.mp h)
  | cons present rest ih =>
    unfold put at h
    split at h
    · rename_i hkey
      obtain heq | hrest := List.mem_cons.mp h
      · exact Or.inl (by rw [heq, hkey])
      · exact Or.inr (List.mem_cons_of_mem _ hrest)
    · obtain heq | hrest := List.mem_cons.mp h
      · exact Or.inr (heq ▸ List.mem_cons_self)
      · obtain hnew | hold := ih hrest
        · exact Or.inl hnew
        · exact Or.inr (List.mem_cons_of_mem _ hold)

/-- Registering entries leaves only these entries and those there were. -/
theorem Registry.mem_foldl_put {entries : List (Token × α)} {registry : Registry α}
    {entry : Token × α}
    (h : entry ∈ entries.foldl (fun registry entry => registry.put entry.1 entry.2) registry) :
    entry ∈ entries ∨ entry ∈ registry := by
  induction entries generalizing registry with
  | nil => exact Or.inr h
  | cons first entries ih =>
    obtain hentries | hput := ih h
    · exact Or.inl (List.mem_cons_of_mem _ hentries)
    · obtain heq | hregistry := Registry.mem_put hput
      · exact Or.inl (heq ▸ List.mem_cons_self)
      · exact Or.inr hregistry

/-- The rule that is found is that of an entry. -/
theorem Registry.mem_of_find? {token : Token} {rule : α} {registry : Registry α}
    (h : registry.find? token = some rule) : (token, rule) ∈ registry := by
  induction registry with
  | nil => cases h
  | cons present rest ih =>
    unfold find? at h
    split at h
    · rename_i hkey
      have hrule : present.2 = rule := Option.some.inj h
      exact List.mem_cons.mpr (Or.inl (by rw [← hkey, ← hrule]))
    · exact List.mem_cons_of_mem _ (ih h)

/-- The rule that is found after registering entries is that of one of them. -/
theorem Registry.mem_of_find?_ofEntries {token : Token} {rule : α}
    {entries : List (Token × α)} (h : (Registry.ofEntries entries).find? token = some rule) :
    (token, rule) ∈ entries := by
  obtain hentries | hempty := Registry.mem_foldl_put (Registry.mem_of_find? h)
  · exact hentries
  · cases hempty

end Entries

namespace OperatorTable

variable {table : OperatorTable}

/-- What begins an operand is no scanning failure. -/
theorem ne_failure_of_beginning? {token : Token} {beginning : Beginning}
    (h : table.beginning? token = some beginning) : token ≠ .failure :=
  table.beginning_ne_failure _ (Registry.mem_of_find?_ofEntries h)

/-- What goes on with an operand is not terminal. -/
theorem not_terminal_of_continuation? {token : Token} {continuation : Continuation}
    (h : table.continuation? token = some continuation) : token.isTerminal = false :=
  table.continuation_not_terminal _ (Registry.mem_of_find?_ofEntries h)

/-- What closes a group is no scanning failure. -/
theorem close_ne_failure {opening close : Token}
    (h : table.beginning? opening = some (.group close)) : close ≠ .failure :=
  (table.close_inert _ (Registry.mem_of_find?_ofEntries h) close rfl).1

/-- What closes a group goes on with nothing. -/
theorem continuation?_close {opening close : Token}
    (h : table.beginning? opening = some (.group close)) : table.continuation? close = none := by
  have hinert := (table.close_inert _ (Registry.mem_of_find?_ofEntries h) close rfl).2
  cases hclose : table.continuation? close with
  | none => rfl
  | some continuation =>
    exact absurd rfl (hinert _ (Registry.mem_of_find?_ofEntries hclose))

/-- The end of the input goes on with nothing. -/
theorem continuation?_endOfInput : table.continuation? .endOfInput = none := by
  cases hend : table.continuation? .endOfInput with
  | none => rfl
  | some continuation =>
    have hterminal := not_terminal_of_continuation? hend
    exact absurd hterminal (by decide)

/-- Every power of a table is positive. -/
theorem one_le_of_continuation? {token : Token} {continuation : Continuation}
    (h : table.continuation? token = some continuation) : 1 ≤ continuation.power :=
  table.one_le_power (token, continuation) (Registry.mem_of_find?_ofEntries h)

/-- No minimum of a table is negative. -/
theorem zero_le_of_mem_minimum? {tree : Tree} {minimum : Int32}
    (h : minimum ∈ table.minimum? tree) : 0 ≤ minimum := by
  cases tree with
  | leaf item => cases h
  | group opening inner closing => cases h
  | trailing operand item => cases h
  | unary item operand =>
    dsimp only [minimum?] at h
    split at h
    · rename_i found hfound
      have heq : found = minimum := Option.some.inj h
      rw [← heq]
      exact table.unary_nonneg _ (Registry.mem_of_find?_ofEntries hfound) found rfl
    · cases h
  | binary left item right =>
    dsimp only [minimum?] at h
    split at h
    · rename_i power side hfound
      have heq : side.minimum power = minimum := Option.some.inj h
      have hpower : 1 ≤ (Continuation.binary power side).power := one_le_of_continuation? hfound
      rw [Continuation.power] at hpower
      rw [← heq]
      exact Associativity.zero_le_minimum hpower side
    · cases h

/-- Every power of a tree is positive. -/
theorem zero_lt_of_mem_power? {tree : Tree} {power : Int32} (h : power ∈ table.power? tree) :
    0 < power := by
  have hcontinuation (item : Item)
      (hitem : power ∈ (table.continuation? item.token).map Continuation.power) : 0 < power := by
    obtain ⟨continuation, hfound, heq⟩ := Option.map_eq_some_iff.mp hitem
    have hone := one_le_of_continuation? hfound
    rw [heq, Int32.le_iff_toInt_le, Int32.toInt_one] at hone
    rw [Int32.lt_iff_toInt_lt, Int32.toInt_zero]
    omega
  cases tree with
  | leaf item => cases h
  | group opening inner closing => cases h
  | unary item operand => cases h
  | trailing operand item => exact hcontinuation item h
  | binary left item right => exact hcontinuation item h

/-- All operators bind above zero. -/
theorem bindsAbove_zero (tree : Tree) : table.BindsAbove 0 tree :=
  fun _ _ _ hpower => zero_lt_of_mem_power? hpower

/-- No minimum is below zero. -/
theorem yieldsTo_zero (tree : Tree) : table.YieldsTo 0 tree :=
  fun _ _ _ hminimum => zero_le_of_mem_minimum? hminimum

/-- A leaf has no operator on its left spine. -/
@[simp] theorem bindsAbove_leaf (minimum : Int32) (item : Item) :
    table.BindsAbove minimum (.leaf item) := by
  simp [BindsAbove, Tree.leftSpine, power?]

/-- An operator before its operand ends the left spine. -/
@[simp] theorem bindsAbove_unary (minimum : Int32) (item : Item) (operand : Tree) :
    table.BindsAbove minimum (.unary item operand) := by
  simp [BindsAbove, Tree.leftSpine, power?]

/-- A group ends the left spine. -/
@[simp] theorem bindsAbove_group (minimum : Int32) (opening closing : Item) (inner : Tree) :
    table.BindsAbove minimum (.group opening inner closing) := by
  simp [BindsAbove, Tree.leftSpine, power?]

/-- An operator behind its operand binds above a minimum if its power does and its
operand does. -/
theorem bindsAbove_trailing {item : Item} {continuation : Continuation}
    (h : table.continuation? item.token = some continuation) {minimum : Int32}
    {operand : Tree} : table.BindsAbove minimum (.trailing operand item) ↔
      minimum < continuation.power ∧ table.BindsAbove minimum operand := by
  simp [BindsAbove, Tree.leftSpine, power?, h]

/-- An operator between its operands binds above a minimum if its power does and its
left operand does. -/
theorem bindsAbove_binary {item : Item} {continuation : Continuation}
    (h : table.continuation? item.token = some continuation) {minimum : Int32}
    {left right : Tree} : table.BindsAbove minimum (.binary left item right) ↔
      minimum < continuation.power ∧ table.BindsAbove minimum left := by
  simp [BindsAbove, Tree.leftSpine, power?, h]

/-- A leaf has no minimum on its right spine. -/
@[simp] theorem yieldsTo_leaf (power : Int32) (item : Item) :
    table.YieldsTo power (.leaf item) := by
  simp [YieldsTo, Tree.rightSpine, minimum?]

/-- A group ends the right spine. -/
@[simp] theorem yieldsTo_group (power : Int32) (opening closing : Item) (inner : Tree) :
    table.YieldsTo power (.group opening inner closing) := by
  simp [YieldsTo, Tree.rightSpine, minimum?]

/-- An operator behind its operand ends the right spine. -/
@[simp] theorem yieldsTo_trailing (power : Int32) (operand : Tree) (item : Item) :
    table.YieldsTo power (.trailing operand item) := by
  simp [YieldsTo, Tree.rightSpine, minimum?]

/-- An operator before its operand yields to a power if its minimum is not below it
and its operand yields. -/
theorem yieldsTo_unary {item : Item} {minimum : Int32}
    (h : table.beginning? item.token = some (.unary minimum)) {power : Int32}
    {operand : Tree} : table.YieldsTo power (.unary item operand) ↔
      power ≤ minimum ∧ table.YieldsTo power operand := by
  simp [YieldsTo, Tree.rightSpine, minimum?, h]

/-- An operator between its operands yields to a power if its minimum is not below
it and its right operand yields. -/
theorem yieldsTo_binary {item : Item} {own : Int32} {side : Associativity}
    (h : table.continuation? item.token = some (.binary own side)) {power : Int32}
    {left right : Tree} : table.YieldsTo power (.binary left item right) ↔
      power ≤ side.minimum own ∧ table.YieldsTo power right := by
  simp [YieldsTo, Tree.rightSpine, minimum?, h]

/-- A single token is balanced. -/
theorem balanced_leaf (item : Item) : table.Balanced (.leaf item) := by
  have hbound : table.Bound (.leaf item) := by
    constructor <;> simp [Tree.rightOperand?, Tree.leftOperand?]
  simpa [Balanced, Tree.nodes] using hbound

/-- A group is balanced if what it encloses is. -/
theorem balanced_group {opening closing : Item} {inner : Tree} :
    table.Balanced (.group opening inner closing) ↔ table.Balanced inner := by
  have hbound : table.Bound (.group opening inner closing) := by
    constructor <;> simp [Tree.rightOperand?, Tree.leftOperand?]
  simp [Balanced, Tree.nodes, hbound]

/-- An operator before its operand is balanced if its operand is and binds above
its minimum. -/
theorem balanced_unary {item : Item} {minimum : Int32}
    (h : table.beginning? item.token = some (.unary minimum)) {operand : Tree} :
    table.Balanced (.unary item operand) ↔
      table.BindsAbove minimum operand ∧ table.Balanced operand := by
  have hbound : table.Bound (.unary item operand) ↔ table.BindsAbove minimum operand := by
    constructor
    · exact fun hnode => hnode.right operand rfl minimum (by simp [minimum?, h])
    · intro hoperand
      constructor
      · simpa [Tree.rightOperand?, minimum?, h]
      · simp [Tree.leftOperand?]
  simp [Balanced, Tree.nodes, hbound]

/-- An operator behind its operand is balanced if its operand is and yields to it. -/
theorem balanced_trailing {item : Item} {continuation : Continuation}
    (h : table.continuation? item.token = some continuation) {operand : Tree} :
    table.Balanced (.trailing operand item) ↔
      table.YieldsTo continuation.power operand ∧ table.Balanced operand := by
  have hbound : table.Bound (.trailing operand item) ↔
      table.YieldsTo continuation.power operand := by
    constructor
    · exact fun hnode => hnode.left operand rfl continuation.power (by simp [power?, h])
    · intro hoperand
      constructor
      · simp [Tree.rightOperand?]
      · simpa [Tree.leftOperand?, power?, h]
  simp [Balanced, Tree.nodes, hbound]

/-- An operator between its operands is balanced if both are, the left one yields to
it and the right one binds above its minimum. -/
theorem balanced_binary {item : Item} {power : Int32} {side : Associativity}
    (h : table.continuation? item.token = some (.binary power side)) {left right : Tree} :
    table.Balanced (.binary left item right) ↔
      (table.YieldsTo power left ∧ table.Balanced left) ∧
        table.BindsAbove (side.minimum power) right ∧ table.Balanced right := by
  have hbound : table.Bound (.binary left item right) ↔
      table.YieldsTo power left ∧ table.BindsAbove (side.minimum power) right := by
    constructor
    · intro hnode
      have hleft := hnode.left left rfl power (by simp [power?, h, Continuation.power])
      have hright := hnode.right right rfl (side.minimum power) (by simp [minimum?, h])
      exact ⟨hleft, hright⟩
    · rintro ⟨hleft, hright⟩
      constructor
      · simpa [Tree.rightOperand?, minimum?, h]
      · simpa [Tree.leftOperand?, power?, h]
  simp only [Balanced, Tree.nodes, List.forall_mem_cons, List.forall_mem_append, hbound]
  constructor
  · exact fun ⟨⟨hyields, hbinds⟩, hleft, hright⟩ => ⟨⟨hyields, hleft⟩, hbinds, hright⟩
  · exact fun ⟨⟨hyields, hleft⟩, hbinds, hright⟩ => ⟨⟨hyields, hbinds⟩, hleft, hright⟩

/-- Items that can be put behind every balanced tree that yields to a power. The new
tree binds above what both the old one and the power bind above. -/
def Places (table : OperatorTable) (power : Int32) (behind : List Item) : Prop :=
  ∀ left, table.Admits left → table.Balanced left → table.YieldsTo power left →
    ∃ tree, table.Reads (left.items ++ behind) tree ∧
      ∀ minimum, minimum < power → table.BindsAbove minimum left → table.BindsAbove minimum tree

/-- A tree behind which items can be put. The new tree binds above what the old one
binds above, and if the items go behind the tree as a whole, above what the power
binds above as well. -/
def Extendable (table : OperatorTable) (power : Int32) (behind : List Item) (tree : Tree) :
    Prop :=
  ∃ extended, table.Reads (tree.items ++ behind) extended ∧
    ∀ minimum, (table.YieldsTo power tree → minimum < power) →
      table.BindsAbove minimum tree → table.BindsAbove minimum extended

variable {power : Int32} {behind : List Item}

/-- If a tree yields to the power, the items go behind the tree as a whole. -/
theorem Places.extendable_of_yieldsTo (hplaces : table.Places power behind) {tree : Tree}
    (hadmits : table.Admits tree) (hbalanced : table.Balanced tree)
    (hyields : table.YieldsTo power tree) : table.Extendable power behind tree := by
  obtain ⟨extended, hreads, hbinds⟩ := hplaces tree hadmits hbalanced hyields
  exact ⟨extended, hreads, fun minimum hbelow => hbinds minimum (hbelow hyields)⟩

/-- If an operator before its operand does not yield, the items go behind the operand. -/
theorem extendable_unary {item : Item} {operand : Tree} {own : Int32}
    (h : table.beginning? item.token = some (.unary own))
    (hbalanced : table.Balanced (.unary item operand))
    (hyields : ¬ table.YieldsTo power (.unary item operand))
    (hoperand : table.Extendable power behind operand) :
    table.Extendable power behind (.unary item operand) := by
  obtain ⟨hbinds, -⟩ := (balanced_unary h).mp hbalanced
  obtain ⟨extended, hreads, hkeeps⟩ := hoperand
  have hbelow : table.YieldsTo power operand → own < power := fun hoperand =>
    Int32.not_le.mp fun hle => hyields ((yieldsTo_unary h).mpr ⟨hle, hoperand⟩)
  have hextended : table.BindsAbove own extended := hkeeps own hbelow hbinds
  refine ⟨.unary item extended, ⟨.unary h hreads.admits, ?_, ?_⟩, ?_⟩
  · exact (balanced_unary h).mpr ⟨hextended, hreads.balanced⟩
  · rw [Tree.items, hreads.items_eq, Tree.items, List.cons_append]
  · exact fun minimum _ _ => bindsAbove_unary _ _ _

/-- If an operator between its operands does not yield, the items go behind the right
operand. -/
theorem extendable_binary {item : Item} {left right : Tree} {own : Int32}
    {side : Associativity} (h : table.continuation? item.token = some (.binary own side))
    (hleft : table.Admits left) (hbalanced : table.Balanced (.binary left item right))
    (hyields : ¬ table.YieldsTo power (.binary left item right))
    (hright : table.Extendable power behind right) :
    table.Extendable power behind (.binary left item right) := by
  obtain ⟨hleftBound, hbinds, -⟩ := (balanced_binary h).mp hbalanced
  obtain ⟨extended, hreads, hkeeps⟩ := hright
  have hbelow : table.YieldsTo power right → side.minimum own < power := fun hright =>
    Int32.not_le.mp fun hle => hyields ((yieldsTo_binary h).mpr ⟨hle, hright⟩)
  have hextended : table.BindsAbove (side.minimum own) extended :=
    hkeeps (side.minimum own) hbelow hbinds
  refine ⟨.binary left item extended, ⟨.binary h hleft hreads.admits, ?_, ?_⟩, ?_⟩
  · exact (balanced_binary h).mpr ⟨hleftBound, hextended, hreads.balanced⟩
  · rw [Tree.items, hreads.items_eq, Tree.items, List.append_assoc, List.cons_append]
  · intro minimum _ hold
    exact (bindsAbove_binary h).mpr ((bindsAbove_binary h).mp hold)

/-- What can be placed can be put behind every balanced tree. It goes below the
deepest node of the right spine whose minimum is below the power. -/
theorem Places.extendable (hplaces : table.Places power behind) {tree : Tree}
    (hadmits : table.Admits tree) (hbalanced : table.Balanced tree) :
    table.Extendable power behind tree := by
  induction hadmits with
  | leaf h => exact hplaces.extendable_of_yieldsTo (.leaf h) hbalanced (yieldsTo_leaf _ _)
  | group h hinner =>
    exact hplaces.extendable_of_yieldsTo (.group h hinner) hbalanced (yieldsTo_group _ _ _ _)
  | trailing h hoperand =>
    exact hplaces.extendable_of_yieldsTo (.trailing h hoperand) hbalanced
      (yieldsTo_trailing _ _ _)
  | @unary item operand own h hoperand ih =>
    by_cases hyields : table.YieldsTo power (.unary item operand)
    · exact hplaces.extendable_of_yieldsTo (.unary h hoperand) hbalanced hyields
    · have hinner : table.Balanced operand := ((balanced_unary h).mp hbalanced).2
      exact extendable_unary h hbalanced hyields (ih hinner)
  | @binary item left right own side h hleft hright ihleft ihright =>
    by_cases hyields : table.YieldsTo power (.binary left item right)
    · exact hplaces.extendable_of_yieldsTo (.binary h hleft hright) hbalanced hyields
    · have hinner : table.Balanced right := ((balanced_binary h).mp hbalanced).2.2
      exact extendable_binary h hleft hbalanced hyields (ihright hinner)

/-- An operator behind its operand can be placed. -/
theorem places_trailing {item : Item} {power : Int32}
    (h : table.continuation? item.token = some (.trailing power)) :
    table.Places power [item] := by
  intro left hadmits hbalanced hyields
  have hnew : table.Balanced (.trailing left item) :=
    (balanced_trailing h).mpr ⟨hyields, hbalanced⟩
  refine ⟨.trailing left item, ⟨.trailing h hadmits, hnew, rfl⟩, ?_⟩
  exact fun minimum hbelow hleft => (bindsAbove_trailing h).mpr ⟨hbelow, hleft⟩

/-- An operator between operands can be placed with a right operand that has no
operator on its left spine. -/
theorem places_binary {item : Item} {power : Int32} {side : Associativity}
    (h : table.continuation? item.token = some (.binary power side)) {right : Tree}
    (hadmitsRight : table.Admits right) (hbalancedRight : table.Balanced right)
    (hbinds : ∀ minimum, table.BindsAbove minimum right) :
    table.Places power (item :: right.items) := by
  intro left hadmits hbalanced hyields
  have hnew : table.Balanced (.binary left item right) :=
    (balanced_binary h).mpr ⟨⟨hyields, hbalanced⟩, hbinds _, hbalancedRight⟩
  refine ⟨.binary left item right, ⟨.binary h hadmits hadmitsRight, hnew, rfl⟩, ?_⟩
  exact fun minimum hbelow hleft => (bindsAbove_binary h).mpr ⟨hbelow, hleft⟩

/-- Operators behind their operand are placed one after the other. -/
theorem exists_reads_append_trailing {behind : List Item}
    (hbehind : ∀ item ∈ behind, table.IsTrailing item) {items : List Item} {tree : Tree}
    (hreads : table.Reads items tree) : ∃ extended, table.Reads (items ++ behind) extended := by
  induction behind generalizing items tree with
  | nil => exact ⟨tree, by rwa [List.append_nil]⟩
  | cons item behind ih =>
    obtain ⟨power, hitem⟩ := hbehind item List.mem_cons_self
    obtain ⟨next, hnext, -⟩ :=
      (places_trailing hitem).extendable hreads.admits hreads.balanced
    rw [hreads.items_eq] at hnext
    have hrest := ih (fun other hother => hbehind other (List.mem_cons_of_mem _ hother)) hnext
    rwa [List.append_assoc, List.singleton_append] at hrest

/-- What a tree has to be for a phrase: an atom has no operator on its left spine,
and neither has an operand before the operators behind it. -/
def Represents (table : OperatorTable) : Phrase → List Item → Prop
  | .atom, items => ∃ tree, table.Reads items tree ∧ ∀ minimum, table.BindsAbove minimum tree
  | .operand, items => ∃ stem behind tree, items = stem ++ behind ∧ table.Reads stem tree ∧
      (∀ minimum, table.BindsAbove minimum tree) ∧ ∀ item ∈ behind, table.IsTrailing item
  | .sequence, items => ∃ tree, table.Reads items tree

/-- Operators before an atom leave the left spine without operators. -/
theorem represents_append_unary {before atom : List Item}
    (hbefore : ∀ item ∈ before, table.IsUnary item) (hatom : table.Represents .atom atom) :
    table.Represents .atom (before ++ atom) := by
  induction before with
  | nil => exact hatom
  | cons item before ih =>
    obtain ⟨minimum, hitem⟩ := hbefore item List.mem_cons_self
    obtain ⟨tree, hreads, hbinds⟩ :=
      ih fun other hother => hbefore other (List.mem_cons_of_mem _ hother)
    have hbalanced : table.Balanced (.unary item tree) :=
      (balanced_unary hitem).mpr ⟨hbinds minimum, hreads.balanced⟩
    refine ⟨.unary item tree, ⟨.unary hitem hreads.admits, hbalanced, ?_⟩, ?_⟩
    · rw [Tree.items, hreads.items_eq, List.cons_append]
    · exact fun other => bindsAbove_unary _ _ _

/-- Every phrase is represented. -/
theorem Spells.represents {phrase : Phrase} {items : List Item}
    (h : table.Spells phrase items) : table.Represents phrase items := by
  induction h with
  | @leaf item h =>
    exact ⟨.leaf item, ⟨.leaf h, balanced_leaf item, rfl⟩, fun _ => bindsAbove_leaf _ _⟩
  | @group opening closing inner h hinner ih =>
    obtain ⟨tree, hreads⟩ := ih
    refine ⟨.group opening tree closing, ⟨.group h hreads.admits, ?_, ?_⟩, ?_⟩
    · exact balanced_group.mpr hreads.balanced
    · rw [Tree.items, hreads.items_eq]
    · exact fun _ => bindsAbove_group _ _ _ _
  | @operand before atom behind hbefore hatom hbehind ih =>
    obtain ⟨tree, hreads, hbinds⟩ := represents_append_unary hbefore ih
    exact ⟨before ++ atom, behind, tree, rfl, hreads, hbinds, hbehind⟩
  | single h ih =>
    obtain ⟨stem, behind, tree, rfl, hreads, -, hbehind⟩ := ih
    exact exists_reads_append_trailing hbehind hreads
  | @more items operand item hitems hitem hoperand ihitems ihoperand =>
    obtain ⟨left, hleft⟩ := ihitems
    obtain ⟨stem, behind, right, rfl, hright, hbinds, hbehind⟩ := ihoperand
    obtain ⟨power, side, hpower⟩ := hitem
    obtain ⟨tree, htree, -⟩ :=
      (places_binary hpower hright.admits hright.balanced hbinds).extendable hleft.admits
        hleft.balanced
    rw [hleft.items_eq, hright.items_eq] at htree
    have hextended := exists_reads_append_trailing hbehind htree
    rwa [List.append_assoc, List.cons_append] at hextended

/-- Every sequence of operands and binary operators has a balanced tree. -/
theorem Spells.exists_reads {items : List Item} (h : table.Spells .sequence items) :
    ∃ tree, table.Reads items tree :=
  h.represents

end OperatorTable

end LanguageKit
