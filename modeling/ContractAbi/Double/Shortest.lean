import ContractAbi.Double.Basic

/-!
# Shortest decimals

A number is written with as few digits as it takes to read it back. If there is a choice, the digits
nearest to its value are taken.
-/

namespace ContractAbi.Double

/-- Whether `digits * 10 ^ power` is below `n * 2 ^ exponent`. -/
def isBelow (digits : Nat) (power : Int) (n : Nat) (exponent : Int) : Bool :=
  digits * pow 10 power * pow 2 (-exponent) < n * pow 2 exponent * pow 10 (-power)

/-- Whether `digits * 10 ^ power` is above `n * 2 ^ exponent`. -/
def isAbove (digits : Nat) (power : Int) (n : Nat) (exponent : Int) : Bool :=
  n * pow 2 exponent * pow 10 (-power) < digits * pow 10 power * pow 2 (-exponent)

/-- Whether `digits * 10 ^ power` is nearer to `mantissa * 2 ^ exponent` than to its neighbours. In
the middle, the even mantissa counts as nearer. Below a power of two the gap is half as wide. -/
def readsBack (mantissa : Nat) (exponent : Int) (digits : Nat) (power : Int) : Bool :=
  let low :=
    if mantissa = leastMantissa ∧ leastExponent < exponent then 4 * mantissa - 1
    else 4 * mantissa - 2
  let high := 4 * mantissa + 2
  if mantissa % 2 = 0 then
    !isBelow digits power low (exponent - 2) && !isAbove digits power high (exponent - 2)
  else isAbove digits power low (exponent - 2) && isBelow digits power high (exponent - 2)

/-- The multiple of `10 ^ power` that is nearest to the number, of those two around it that are read
back as the number. -/
def nearestMultiple? (mantissa : Nat) (exponent : Int) (power : Int) : Option Nat :=
  let digits := mantissa * pow 2 exponent * pow 10 (-power) / (pow 2 (-exponent) * pow 10 power)
  let isRead (digits : Nat) : Bool := readsBack mantissa exponent digits power
  match isRead digits, isRead (digits + 1) with
  | true, true =>
    if isBelow (2 * digits + 1) power (2 * mantissa) exponent then some (digits + 1)
    else if isAbove (2 * digits + 1) power (2 * mantissa) exponent then some digits
    else some (digits + digits % 2)
  | true, false => some digits
  | false, true => some (digits + 1)
  | false, false => none

/-- The digits of a number and the power of ten they are multiplied with. The greatest power with a
multiple for the number leaves the fewest digits. Without any, all digits would remain. -/
def shortest (mantissa : Nat) (exponent : Int) : Nat × Int :=
  let powers : List Int := (List.range 650).map fun (i : Nat) => 310 - i
  (powers.findSome? fun power =>
    (nearestMultiple? mantissa exponent power).map fun digits => (digits, power)).getD
      (mantissa * pow 2 exponent * pow 5 (-exponent), min exponent 0)

def zeros (count : Nat) : List CodePoint :=
  List.replicate count '0'

/-- An exponent with its sign and at least two digits. -/
def exponentText (n : Int) : List CodePoint :=
  let digits := Text.toList (toString n.natAbs)
  .char 'e' :: .char (if n < 0 then '-' else '+') :: zeros (2 - digits.length) ++ digits

/-- Digits with the point after the first `point` of them. From `10 ^ -4` up to `10 ^ 16` the number
stands there in full, and beyond with an exponent. -/
def place (digits : List CodePoint) (point : Int) : List CodePoint :=
  if -4 < point ∧ point ≤ 16 then
    if point ≤ 0 then .char '0' :: .char '.' :: zeros (-point).toNat ++ digits
    else if digits.length ≤ point then
      digits ++ zeros (point.toNat - digits.length) ++ [.char '.', .char '0']
    else digits.take point.toNat ++ .char '.' :: digits.drop point.toNat
  else
    match digits with
    | first :: rest =>
      first :: (if rest = [] then [] else .char '.' :: rest) ++ exponentText (point - 1)
    | [] => []

/-- The number as a text. -/
def text : Double → Text
  | undefined => "nan"
  | infinity isNegative => if isNegative then "-inf" else "inf"
  | finite isNegative mantissa exponent =>
    let body :=
      if mantissa = 0 then Text.toList "0.0"
      else
        let (digits, power) := shortest mantissa exponent
        let digits := Text.toList (toString digits)
        place digits (digits.length + power)
    Text.ofList (if isNegative then .char '-' :: body else body)

end ContractAbi.Double
