import LanguageKit.Token

/-!
# Registries of rules

A registry keeps one rule per token, in the order in which the tokens were first
registered. Registering a token again replaces its rule and keeps its place.
-/

namespace LanguageKit

/-- Rules by token, in the order of first registration. -/
abbrev Registry (α : Type) : Type := List (Token × α)

namespace Registry

variable {α : Type}

/-- The rule of a token. -/
def find? (token : Token) : Registry α → Option α
  | [] => none
  | (key, rule) :: rest => if key = token then some rule else find? token rest

/-- Registers a rule for a token. -/
def put (token : Token) (rule : α) : Registry α → Registry α
  | [] => [(token, rule)]
  | (key, present) :: rest =>
    if key = token then (key, rule) :: rest else (key, present) :: put token rule rest

/-- The tokens with a rule, in the order of first registration. -/
def tokens (registry : Registry α) : List Token := registry.map Prod.fst

/-- A token that has just been registered has the new rule. -/
theorem find?_put_self (token : Token) (rule : α) (registry : Registry α) :
    (registry.put token rule).find? token = some rule := by
  induction registry with
  | nil => simp [put, find?]
  | cons entry rest ih =>
    unfold put
    split
    · rename_i h
      simp [find?, h]
    · rename_i h
      simp [find?, h, ih]

/-- Registering one token keeps the rules of the others. -/
theorem find?_put_of_ne {token other : Token} (h : other ≠ token) (rule : α)
    (registry : Registry α) :
    (registry.put token rule).find? other = registry.find? other := by
  induction registry with
  | nil => simp [put, find?, Ne.symm h]
  | cons entry rest ih =>
    unfold put
    split
    · rename_i hkey
      have : ¬ entry.1 = other := fun he => h (he.symm.trans hkey)
      simp [find?, this]
    · simp [find?, ih]

end Registry

end LanguageKit
