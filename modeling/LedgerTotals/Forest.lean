/-
A forest of accounts with running totals. What is posted to an account is posted to every account
above it as well, so each of them sees each amount once, however deep the forest is.

`Posting.post` reads and writes the accounts one at a time and may stop on the way; `posted` is how
it ends and what it leaves behind. `run` is a whole history, with what each operation left behind.
-/
import LedgerTotals.Totals

namespace LedgerTotals

/-- running totals, and the accounts above, nearest first -/
structure Account where
  totals : Totals
  ancestors : List Nat
  deriving DecidableEq

/-- the accounts in the order of their creation, by which they are known -/
structure Forest where
  accounts : List Account
  deriving DecidableEq

namespace Forest

def empty : Forest := ⟨[]⟩

def account? (f : Forest) (i : Nat) : Option Account := f.accounts[i]?

/-- the account `i` and all above it, nearest first -/
def line (f : Forest) (i : Nat) : List Nat :=
  match f.account? i with
  | some a => i :: a.ancestors
  | none => []

/-- the totals of account `i`, zero if there is none -/
def totalsAt (f : Forest) (i : Nat) : Totals :=
  match f.account? i with
  | some a => a.totals
  | none => .zero

def hasParent (f : Forest) (i : Nat) : Bool :=
  match f.account? i with
  | some a => !a.ancestors.isEmpty
  | none => false

def lineTotals (f : Forest) (i : Nat) : List Totals := (f.line i).map f.totalsAt

/-- new running totals for the accounts of a line -/
def setTotals (f : Forest) (line : List Nat) (totals : List Totals) : Forest :=
  ⟨f.accounts.mapIdx fun j a =>
    match (line.zip totals).lookup j with
    | some t => { a with totals := t }
    | none => a⟩

def addRoot (f : Forest) : Forest := ⟨f.accounts ++ [⟨.zero, []⟩]⟩

def addChild (f : Forest) (i : Nat) : Forest := ⟨f.accounts ++ [⟨.zero, f.line i⟩]⟩

/-! ## posting -/

def write (f : Forest) (j : Nat) (t : Totals) : Forest :=
  ⟨f.accounts.modify j fun a => { a with totals := t }⟩

/-- what reads and writes accounts, and may stop at a total that is too large; what it has written
by then stays -/
abbrev Posting : Type → Type := ExceptT TotalsOverflow (StateM Forest)

namespace Posting

/-- the value, or a stop if there is none -/
def orOverflow {α : Type} : Option α → Posting α
  | some a => pure a
  | none => throw ⟨⟩

/-- account `j` with the totals it is to have once a batch is added -/
def newTotals (batch : Totals) (j : Nat) : Posting (Nat × Totals) := do
  let f ← get
  let t ← orOverflow (batch.post? (f.totalsAt j))
  pure (j, t)

def commit (update : Nat × Totals) : Posting Unit := modify (·.write update.1 update.2)

/-- a batch posted to account `i` and to all above it: the new totals of all of them are found
before any of them is written -/
def post (i : Nat) (amounts : List Decimal) : Posting Unit := do
  let batch ← orOverflow (Totals.ofBatch? amounts)
  let f ← get
  let updates ← (f.line i).mapM (newTotals batch)
  updates.forM commit

/-- how it ends, and the forest it leaves behind -/
def exec {α : Type} (x : Posting α) (f : Forest) : Except TotalsOverflow α × Forest := x.run.run f

end Posting

/-- how a posting ends, and the forest it leaves behind -/
def posted (f : Forest) (i : Nat) (amounts : List Decimal) : Except TotalsOverflow Unit × Forest :=
  (Posting.post i amounts).exec f

/-- the forest after a posting; `none` if a total would overflow -/
def post? (f : Forest) (i : Nat) (amounts : List Decimal) : Option Forest :=
  match f.posted i amounts with
  | (.ok _, g) => some g
  | (.error _, _) => none

/-! ## histories -/

inductive Step where
  | root
  | child (parent : Nat)
  | post (account : Nat) (amounts : List Decimal)

/-- one operation; `none` if a total would overflow -/
def step? (f : Forest) : Step → Option Forest
  | .root => some f.addRoot
  | .child i => some (f.addChild i)
  | .post i amounts => f.post? i amounts

/-- one operation, and what it leaves behind whether it goes through or not -/
def step (f : Forest) : Step → Forest
  | .root => f.addRoot
  | .child i => f.addChild i
  | .post i amounts => (f.posted i amounts).2

def run (f : Forest) (steps : List Step) : Forest := steps.foldl step f

end Forest

end LedgerTotals
