import ContractAbi.Text.Decimal

/-!
# Numbers in double precision

A finite number is `mantissa * 2 ^ exponent` with a mantissa of at most 53 binary digits and an
exponent of at least -1074. A decimal number stands for the nearest of them, and if two are equally
near for the one with the even mantissa.
-/

namespace ContractAbi

inductive Double where
  | finite (isNegative : Bool) (mantissa : Nat) (exponent : Int)
  | infinity (isNegative : Bool)
  /-- The value that is no number. -/
  | undefined
deriving DecidableEq, Repr

namespace Double

def leastExponent : Int := -1074

def greatestExponent : Int := 971

/-- The base to this power, or 1 where the power is negative. -/
def pow (base : Nat) (power : Int) : Nat :=
  Nat.pow base power.toNat

/-- The least mantissa of a number whose exponent is not the least one. -/
def leastMantissa : Nat := pow 2 52

/-! ### Rounding -/

/-- The whole number nearest to `num / den`, and of two the even one. -/
def roundQuotient (num den : Nat) : Nat :=
  let twice := 2 * (num % den)
  if den < twice ∨ (den = twice ∧ num / den % 2 = 1) then num / den + 1 else num / den

/-- The exponent of the greatest power of two that is not above `num / den`. -/
def magnitude (num den : Nat) : Int :=
  let near : Int := (num.log2 : Int) - den.log2
  if den * pow 2 near ≤ num * pow 2 (-near) then near else near - 1

/-- A finite number, or an infinity if its exponent is too great. -/
def ofParts (isNegative : Bool) (mantissa : Nat) (exponent : Int) : Double :=
  if greatestExponent < exponent then infinity isNegative
  else finite isNegative mantissa exponent

/-- The number nearest to `num / den`. -/
def ofQuotient (isNegative : Bool) (num den : Nat) : Double :=
  if num = 0 then finite isNegative 0 leastExponent
  else
    let exponent := max leastExponent (magnitude num den - 52)
    let mantissa := roundQuotient (num * pow 2 (-exponent)) (den * pow 2 exponent)
    if mantissa = 2 * leastMantissa then ofParts isNegative leastMantissa (exponent + 1)
    else ofParts isNegative mantissa exponent

/-- The number nearest to a decimal number. Far out of range it is enough to count digits. -/
def ofDecimal (isNegative : Bool) (d : Text.Decimal) : Double :=
  if d.digits = 0 ∨ d.power + d.width < -400 then finite isNegative 0 leastExponent
  else if 400 < d.power then infinity isNegative
  else ofQuotient isNegative (d.digits * pow 10 d.power) (pow 10 (-d.power))

/-- Reads a number with an optional minus sign. -/
def parse (cs : List CodePoint) : Double :=
  match cs with
  | '-' :: rest => ofDecimal true (.parse rest)
  | _ => ofDecimal false (.parse cs)

/-! ### Values -/

def isZero : Double → Bool
  | finite _ mantissa _ => mantissa = 0
  | _ => false

/-- The value, if that is a whole number. -/
def whole? : Double → Option Int
  | finite isNegative mantissa exponent =>
    let size := mantissa * pow 2 exponent
    let unit := pow 2 (-exponent)
    if size % unit = 0 then some (if isNegative then -(size / unit : Nat) else (size / unit : Nat))
    else none
  | _ => none

end Double

end ContractAbi
