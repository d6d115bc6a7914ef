import ContractAbi.Sha256
import ContractAbi.Text.Hex

/-!
# Signatures and selectors

A signature is a method's name with its canonical parameter types. The selector is the first four
bytes of the signature's SHA-256 digest, as eight hexadecimal digits. There is none if the signature
cannot be encoded.
-/

namespace ContractAbi

/-- How a method is called: by its signature, and in a message by its selector. -/
structure Call where
  signature : Text
  selector : Text
deriving DecidableEq, Repr

namespace Call

def signatureOf (name : Text) (types : List Text) : Text :=
  name ++ "(" ++ Text.intercalate "," types ++ ")"

def selectorOf (signature : Text) : Option Text :=
  signature.string?.map fun s =>
    Text.ofList (Text.hexDigits 8 (Sha256.digest s.toUTF8.toList).a.toNat)

def ofSignature (signature : Text) : Option Call :=
  (selectorOf signature).map fun selector => ⟨signature, selector⟩

def of (name : Text) (types : List Text) : Option Call :=
  ofSignature (signatureOf name types)

end Call

/-- A selector as a number in generated code. -/
def selectorLiteral (selector : Text) : Text :=
  "0x" ++ selector

end ContractAbi
