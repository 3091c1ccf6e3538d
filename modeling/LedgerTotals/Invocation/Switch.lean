/-
Switches: arguments that go by a name, `--name`, or by a letter, `-n`, and may take a value.

A value follows its switch as the next argument, after an equals sign, or right after the letter.
Arguments are read from left to right. A value that stands alone is checked only when the next
switch comes or the arguments end. After `--` there are no switches any more, and since no command
takes other arguments, whatever is no switch is an error or the name of a command.
-/
import LedgerTotals.Invocation

namespace LedgerTotals

/-- a switch whose value goes into a draft `σ` -/
structure Switch (σ : Type) where
  name : String
  letter : Option Char
  takesValue : Bool
  given : σ → Bool
  store : σ → String → Except UsageError σ

/-- what has been read, and the switch that is not in the draft yet, with its value if that is
there -/
structure SwitchReader (σ : Type) where
  draft : σ
  pending : Option (Switch σ × Option String)

namespace SwitchReader

variable {σ : Type}

/-- nothing pending -/
def of (draft : σ) : SwitchReader σ := ⟨draft, none⟩

/-- the draft with a switch and its value, which must be its first -/
def record (draft : σ) (switch : Switch σ) (value : String) : Except UsageError σ :=
  if switch.given draft then .error .repeatedArgument else switch.store draft value

/-- the draft with what is pending -/
def settle (r : SwitchReader σ) : Except UsageError σ :=
  match r.pending with
  | none => .ok r.draft
  | some (_, none) => .error .invalidValue
  | some (switch, some value) => record r.draft switch value

/-- a switch with its value, after what is pending -/
def attach (r : SwitchReader σ) (switch : Switch σ) (value : String) :
    Except UsageError (SwitchReader σ) := do
  let draft ← r.settle
  let draft ← record draft switch value
  .ok (of draft)

/-- a switch whose value is the next argument, after what is pending -/
def await (r : SwitchReader σ) (switch : Switch σ) : Except UsageError (SwitchReader σ) := do
  let draft ← r.settle
  .ok ⟨draft, some (switch, none)⟩

/-- the switch that waits for its value -/
def awaiting? (r : SwitchReader σ) : Option (Switch σ) :=
  match r.pending with
  | some (switch, none) => some switch
  | _ => none

/-- a switch by its name, the text after the two dashes -/
def readName (switches : List (Switch σ)) (r : SwitchReader σ) (cs : List Char) :
    Except UsageError (SwitchReader σ) :=
  match switches.find? fun s => s.name.toList = cs.takeWhile (· ≠ '=') with
  | none => .error .unknownArgument
  | some switch =>
    match cs.dropWhile (· ≠ '='), switch.takesValue with
    | _ :: value, true => r.attach switch (String.ofList value)
    | _ :: _, false => .error .unexpectedValue
    | [], true => r.await switch
    | [], false => r.attach switch ""

/-- switches by their letters, the text after the dash -/
def readLetters (switches : List (Switch σ)) (r : SwitchReader σ) :
    List Char → Except UsageError (SwitchReader σ)
  | [] => .ok r
  | c :: cs =>
    match switches.find? fun s => s.letter = some c with
    | none => .error .unknownArgument
    | some switch =>
      if switch.takesValue then
        match cs with
        | [] => r.await switch
        | '=' :: value => r.attach switch (String.ofList value)
        | value => r.attach switch (String.ofList value)
      else (r.attach switch "").bind fun r => readLetters switches r cs

/-- the error for an argument that is neither switch nor value -/
def stray (commands : List String) (ended : Bool) (arg : String) : UsageError :=
  if commands = [] ∨ (ended = true ∧ arg ∈ commands) then .unknownArgument else .unknownCommand

/-- arguments up to the name of a command, and that name with the arguments after it; `ended` if
there are no switches any more -/
def readArguments (switches : List (Switch σ)) (commands : List String) :
    Bool → SwitchReader σ → List String →
      Except UsageError (SwitchReader σ × Option (String × List String))
  | _, r, [] => .ok (r, none)
  | ended, r, arg :: args =>
    if ended then .error (stray commands ended arg)
    else if r.awaiting?.isNone ∧ arg ∈ commands then .ok (r, some (arg, args))
    else match arg.toList with
      | ['-', '-'] => readArguments switches commands true r args
      | '-' :: '-' :: cs =>
        (readName switches r cs).bind fun r => readArguments switches commands false r args
      | '-' :: c :: cs =>
        (readLetters switches r (c :: cs)).bind fun r => readArguments switches commands false r args
      | _ =>
        match r.awaiting? with
        | some switch =>
          readArguments switches commands false ⟨r.draft, some (switch, some arg)⟩ args
        | none => .error (stray commands ended arg)

end SwitchReader

end LedgerTotals
