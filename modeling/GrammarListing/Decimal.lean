namespace GrammarListing

/-! Binary floating point of 64 bits, with finite numbers kept as a significand and a power of
two.  A ratio is rounded to the nearest such number, a tie to the even significand. -/

inductive Binary64 where
  | nan
  | infinite (negative : Bool)
  | finite (negative : Bool) (significand : Nat) (exponent : Int)
deriving DecidableEq

/-- The nearest whole number to a ratio, a tie to the even one. -/
def roundRatio (numerator denominator : Nat) : Nat :=
  let quotient := numerator / denominator
  let double := 2 * (numerator % denominator)
  if double > denominator ∨ double = denominator ∧ quotient % 2 = 1 then quotient + 1
  else quotient

namespace Binary64

def precision : Nat := 53

def leastExponent : Int := -1074

def greatestExponent : Int := 971

def scaleRatio (numerator denominator : Nat) (power : Int) : Nat × Nat :=
  match power with
  | .ofNat power => (numerator * Nat.pow 2 power, denominator)
  | .negSucc power => (numerator, denominator * Nat.pow 2 (power + 1))

/-- The power of two at or below a positive ratio. -/
def binaryOrder (numerator denominator : Nat) : Int :=
  let order := (Nat.log2 numerator : Int) - Nat.log2 denominator
  let (numerator, denominator) := scaleRatio numerator denominator (-order)
  if numerator < denominator then order - 1 else order

def ofRatio (negative : Bool) (numerator denominator : Nat) : Binary64 :=
  if numerator = 0 then .finite negative 0 leastExponent
  else
    let exponent := max (binaryOrder numerator denominator - (precision - 1)) leastExponent
    let (numerator, denominator) := scaleRatio numerator denominator (-exponent)
    let significand := roundRatio numerator denominator
    let (significand, exponent) :=
      if significand = Nat.pow 2 precision then (Nat.pow 2 (precision - 1), exponent + 1)
      else (significand, exponent)
    if exponent > greatestExponent then .infinite negative
    else .finite negative significand exponent

/-- Decimal orders beyond which every number is infinite or zero. -/
private def orderBound : Int := 400

def ofDecimal (negative : Bool) (digits : Nat) (power : Int) : Binary64 :=
  let order := power + (Nat.toDigits 10 digits).length
  if digits = 0 ∨ order < -orderBound then .finite negative 0 leastExponent
  else if order > orderBound then .infinite negative
  else
    match power with
    | .ofNat power => ofRatio negative (digits * Nat.pow 10 power) 1
    | .negSucc power => ofRatio negative digits (Nat.pow 10 (power + 1))

def negate : Binary64 → Binary64
  | .nan => .nan
  | .infinite negative => .infinite !negative
  | .finite negative significand exponent => .finite (!negative) significand exponent

def times (first second : Binary64) : Binary64 :=
  match first, second with
  | .finite n₁ s₁ e₁, .finite n₂ s₂ e₂ =>
      let (numerator, denominator) := scaleRatio (s₁ * s₂) 1 (e₁ + e₂)
      ofRatio (n₁ != n₂) numerator denominator
  | _, _ => .nan

def dividedBy (first second : Binary64) : Binary64 :=
  match first, second with
  | .finite n₁ s₁ e₁, .finite n₂ s₂ e₂ =>
      if s₂ = 0 then .nan
      else
        let (numerator, denominator) := scaleRatio s₁ s₂ (e₁ - e₂)
        ofRatio (n₁ != n₂) numerator denominator
  | _, _ => .nan

def isZero : Binary64 → Bool
  | .finite _ 0 _ => true
  | _ => false

end Binary64

/-! The decimal text of a number: the fewest digits that read back as it, and of these the
nearest.  Which of two equally near ones it is, and whether they are written out by position or
with an exponent, is a matter of style. -/

inductive Tie where
  | up
  | toEven

def Tie.isUp (tie : Tie) (below numerator denominator : Nat) : Bool :=
  let double := 2 * (numerator % denominator)
  double > denominator ||
    double == denominator && match tie with
      | .up => true
      | .toEven => below % 2 == 1

namespace Binary64

/-- How numbers are written.  `isPositional` is asked for the decimal order of the first digit;
where it denies, one digit stands before the point, and an exponent with its sign follows. -/
structure Style where
  tie : Tie
  isPositional : Int → Bool

/-- A number's exact value and the ends of the interval of values that round to it, over one
denominator.  The ends belong to the interval when the significand is even. -/
structure Interval where
  low : Nat
  value : Nat
  high : Nat
  denominator : Nat
  closed : Bool

def interval (significand : Nat) (exponent : Int) : Interval :=
  let narrow := significand = Nat.pow 2 (precision - 1) ∧ exponent > leastExponent
  let scale := fun (quarters : Nat) => scaleRatio quarters 4 exponent
  let value := scale (4 * significand)
  { low := (scale (4 * significand - if narrow then 1 else 2)).1
    value := value.1
    high := (scale (4 * significand + 2)).1
    denominator := value.2
    closed := significand % 2 = 0 }

def Interval.holds (interval : Interval) (digits : Nat) (power : Int) : Bool :=
  let (candidate, unit) : Nat × Nat :=
    match power with
    | .ofNat power => (digits * Nat.pow 10 power * interval.denominator, 1)
    | .negSucc power => (digits * interval.denominator, Nat.pow 10 (power + 1))
  let low := interval.low * unit
  let high := interval.high * unit
  (low < candidate && candidate < high) ||
    interval.closed && (candidate == low || candidate == high)

/-- The nearest of the value's two neighbours on a decimal grid that lie in the interval. -/
def Interval.onGrid? (interval : Interval) (tie : Tie) (power : Int) : Option Nat :=
  let (numerator, denominator) : Nat × Nat :=
    match power with
    | .ofNat power => (interval.value, interval.denominator * Nat.pow 10 power)
    | .negSucc power => (interval.value * Nat.pow 10 (power + 1), interval.denominator)
  let below := numerator / denominator
  let isUp := tie.isUp below numerator denominator
  let first := if isUp then below + 1 else below
  let second := if isUp then below else below + 1
  if first ≠ 0 ∧ interval.holds first power then some first
  else if second ≠ 0 ∧ interval.holds second power then some second
  else none

def Interval.shortestFrom (interval : Interval) (tie : Tie) (grids : Nat) (power : Int) :
    Nat × Int :=
  match grids with
  | 0 => (interval.value / interval.denominator, 0)
  | grids + 1 =>
      match interval.onGrid? tie power with
      | some digits => (digits, power)
      | none => interval.shortestFrom tie grids (power - 1)

/-- The most grids to try: seventeen digits always read back, and the first grid may be two
orders too coarse. -/
private def gridCount : Nat := 20

def shortest (tie : Tie) (significand : Nat) (exponent : Int) : Nat × Int :=
  let interval := interval significand exponent
  let order : Int := (Nat.toDigits 10 interval.value).length -
    (Nat.toDigits 10 interval.denominator).length
  interval.shortestFrom tie gridCount (order + 1)

def positional (digits : List Char) (power : Int) : List Char :=
  match power with
  | .ofNat power => digits ++ List.replicate power '0' ++ ['.', '0']
  | .negSucc power =>
      let places := power + 1
      let padded := List.replicate (places + 1 - digits.length) '0' ++ digits
      padded.take (padded.length - places) ++ '.' :: padded.drop (padded.length - places)

def scientific (digits : List Char) (order : Int) : List Char :=
  let coefficient :=
    match digits with
    | first :: second :: rest => first :: '.' :: second :: rest
    | digits => digits
  let sign := if order < 0 then '-' else '+'
  coefficient ++ 'e' :: sign :: Nat.toDigits 10 order.natAbs

def Style.digits (style : Style) (digits : Nat) (power : Int) : List Char :=
  let written := Nat.toDigits 10 digits
  let order := power + written.length - 1
  if style.isPositional order then positional written power else scientific written order

def text (style : Style) : Binary64 → String
  | .nan => "NaN"
  | .infinite negative => if negative then "-inf" else "inf"
  | .finite negative significand exponent =>
      let (digits, power) :=
        if significand = 0 then (0, 0) else shortest style.tie significand exponent
      String.ofList ((if negative then ['-'] else []) ++ style.digits digits power)

end Binary64

end GrammarListing
