/-
Doubles: the numbers `m * 2 ^ e` with `m < 2 ^ 53` and `e ≥ -1074`, and their shortest text.

`ofRatio?` rounds a ratio to the nearest double, a half to the even mantissa. `shortest` gives the
fewest digits that read back as the same double, and of these the nearest.
-/
import LedgerTotals.Round
import LedgerTotals.Text.Digits

namespace LedgerTotals

/-- the number `mantissa * 2 ^ exponent` -/
structure Binary64 where
  mantissa : Nat
  exponent : Int
  deriving DecidableEq

namespace Binary64

def pow2 (k : Nat) : Nat := Nat.pow 2 k

def minExponent : Int := -1074
def maxExponent : Int := 971

def zero : Binary64 := ⟨0, minExponent⟩

/-- numerator and denominator of `num / (den * 2 ^ e)` -/
def overPower (num den : Nat) (e : Int) : Nat × Nat :=
  if e < 0 then (num * pow2 e.natAbs, den) else (num, den * pow2 e.natAbs)

/-- the least exponent at which the mantissa of `num / den` takes no more than 53 bits -/
def exponentFor (num den : Nat) : Int :=
  let guess : Int := (Nat.log2 num : Int) - (Nat.log2 den : Int) - 53
  let e := if guess < minExponent then minExponent else guess
  let p := overPower num den e
  if p.1 / p.2 < pow2 53 then e else e + 1

/-- the double nearest to `num / den`; `none` above the largest -/
def ofRatio? (num den : Nat) : Option Binary64 :=
  if num = 0 then some zero
  else
    let e := exponentFor num den
    let p := overPower num den e
    let m := roundHalfEven p.1 p.2
    let d : Binary64 := if m = pow2 53 then ⟨pow2 52, e + 1⟩ else ⟨m, e⟩
    if maxExponent < d.exponent then none else some d

/-- numerator and denominator of the double -/
def ratio (d : Binary64) : Nat × Nat :=
  if d.exponent < 0 then (d.mantissa, pow2 d.exponent.natAbs)
  else (d.mantissa * pow2 d.exponent.natAbs, 1)

def mul? (a b : Binary64) : Option Binary64 :=
  ofRatio? (a.ratio.1 * b.ratio.1) (a.ratio.2 * b.ratio.2)

def div? (a b : Binary64) : Option Binary64 :=
  ofRatio? (a.ratio.1 * b.ratio.2) (a.ratio.2 * b.ratio.1)

/-- the double nearest to a power of ten, zero past the largest -/
def tenTo (k : Nat) : Binary64 := (ofRatio? (pow10 k) 1).getD zero

/-! ## shortest text -/

/-- the digits `n` with the exponent `k` of their last digit stand for `n * 10 ^ k` -/
structure Digital where
  digits : Nat
  exponent : Int

def Digital.ratio (x : Digital) : Nat × Nat :=
  if x.exponent < 0 then (x.digits, pow10 x.exponent.natAbs)
  else (x.digits * pow10 x.exponent.natAbs, 1)

/-- the digits read back as the double `d` -/
def readsBack (d : Binary64) (x : Digital) : Bool :=
  ofRatio? x.ratio.1 x.ratio.2 == some d

/-- the multiples of `10 ^ k` next to the double, the nearer one first, the even one at a tie -/
def neighbours (d : Binary64) (k : Int) : List Digital :=
  let p := if k < 0 then (d.ratio.1 * pow10 k.natAbs, d.ratio.2)
    else (d.ratio.1, d.ratio.2 * pow10 k.natAbs)
  let low : Digital := ⟨p.1 / p.2, k⟩
  let high : Digital := ⟨p.1 / p.2 + 1, k⟩
  if roundHalfEven p.1 p.2 = low.digits then [low, high] else [high, low]

/-- the first grid, from coarse to fine, with a neighbour that reads back -/
def shortestFrom (d : Binary64) : Nat → Int → Digital
  | 0, k => (neighbours d k).headD ⟨0, 0⟩
  | n + 1, k =>
    match (neighbours d k).find? fun x => x.digits ≠ 0 && readsBack d x with
    | some x => x
    | none => shortestFrom d n (k - 1)

/-- a power of ten above every double `d` with this many bits in front of the point -/
def coarsest (d : Binary64) : Int :=
  ((Nat.log2 d.mantissa : Int) + d.exponent + 1) * 30103 / 100000 + 1

/-- the digits and the place of the shortest text of a double that is not zero -/
def shortest (d : Binary64) : Digital := shortestFrom d 20 (coarsest d)

/-- the least and the greatest place of the first digit that is written without an exponent -/
def leastPlain : Int := -5
def greatestPlain : Int := 15

/-- digits `ds` whose first one stands at the place `e`, with a point or an exponent -/
def layout (ds : List Char) (e : Int) : List Char :=
  if leastPlain ≤ e ∧ e ≤ greatestPlain then
    if e < 0 then '0' :: '.' :: (List.replicate (e.natAbs - 1) '0' ++ ds)
    else
      let whole := e.natAbs + 1
      if ds.length ≤ whole then ds ++ List.replicate (whole - ds.length) '0' ++ ['.', '0']
      else ds.take whole ++ '.' :: ds.drop whole
  else
    let tail := 'e' :: (if e < 0 then '-' else '+') :: Digits.digits e.natAbs
    match ds with
    | [d] => d :: tail
    | d :: rest => d :: '.' :: (rest ++ tail)
    | [] => tail

/-- digits without the zeros at their end -/
def withoutTrailingZeros (ds : List Char) : List Char :=
  (ds.reverse.dropWhile (· = '0')).reverse

/-- the shortest text of the double, with a sign if `negative` -/
def text (negative : Bool) (d : Binary64) : String :=
  let x := d.shortest
  let ds := Digits.digits x.digits
  let body := if d.mantissa = 0 then ['0', '.', '0']
    else layout (withoutTrailingZeros ds) (x.exponent + (ds.length : Int) - 1)
  String.ofList (if negative then '-' :: body else body)

end Binary64

end LedgerTotals
