import ContractAbi.Text.Basic

/-!
# Hexadecimal digits
-/

namespace ContractAbi.Text

/-- The digits of `n` in hexadecimal, with zeros in front up to `width` of them. -/
def hexDigits (width n : Nat) : List CodePoint :=
  let digits := Nat.toDigits 16 n
  (List.replicate (width - digits.length) '0' ++ digits).map .char

end ContractAbi.Text
