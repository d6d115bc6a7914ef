import ContractAbi.Text.Basic

/-!
# Decimal numbers

Numbers as they are written, with a fraction and a power of ten.
-/

namespace ContractAbi.Text

/-- The value of a run of decimal digits. -/
def decimal (digits : List CodePoint) : Nat :=
  digits.foldl (fun n c => n * 10 + (c.toNat - '0'.toNat)) 0

/-- The value of digits with a sign in front. -/
def signedDecimal (cs : List CodePoint) : Int :=
  match cs with
  | '-' :: digits => -decimal digits
  | '+' :: digits => decimal digits
  | digits => decimal digits

/-- The number `digits * 10 ^ power`, written with `width` digits, zeros in front included. -/
structure Decimal where
  digits : Nat
  width : Nat
  power : Int
deriving DecidableEq, Repr

namespace Decimal

/-- Reads an unsigned number with an optional fraction and an optional power of ten. -/
def parse (cs : List CodePoint) : Decimal :=
  let mantissa := cs.takeWhile fun (c : CodePoint) => c ≠ 'e' && c ≠ 'E'
  let fraction := (mantissa.dropWhile (· ≠ CodePoint.char '.')).drop 1
  let digits := mantissa.filter (· ≠ CodePoint.char '.')
  { digits := decimal digits
    width := digits.length
    power := signedDecimal ((cs.dropWhile fun (c : CodePoint) => c ≠ 'e' && c ≠ 'E').drop 1) -
      fraction.length }

end Decimal

end ContractAbi.Text
