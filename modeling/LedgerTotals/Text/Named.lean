/-
Choices that go by name: a name picks its choice from a short list, or is unknown.
-/
namespace LedgerTotals

/-- a name that is not on the list, which `expected` spells out -/
structure UnknownName where
  name : String
  expected : String
  deriving DecidableEq

def UnknownName.message (e : UnknownName) : String :=
  "unknown variant `" ++ e.name ++ "`, expected " ++ e.expected

/-- the choices of a list, each with its name -/
structure Choices (α : Type) where
  named : List (String × α)
  expected : String

def Choices.pick {α : Type} (choices : Choices α) (name : String) : Except UnknownName α :=
  match choices.named.lookup name with
  | some a => .ok a
  | none => .error ⟨name, choices.expected⟩

end LedgerTotals
