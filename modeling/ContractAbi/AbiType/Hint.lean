import ContractAbi.AbiType.Basic

/-!
# Client-side type hints

The TypeScript type in which client code meets a value of an ABI type, and the names that such a
type has to import. Hints take no part in signatures.
-/

namespace ContractAbi.AbiType

/-- Integers of up to 32 bits are numbers, wider ones are big integers. -/
def hint : AbiType → Text
  | uint8 | uint16 | uint32 | int8 | int16 | int32 => "number"
  | uint64 | uint128 | uint256 | int64 | int128 => "bigint"
  | address | extendedAddress => "Address"
  | addressArray | extendedAddressArray => "Address[]"
  | addressAmounts => "AddressMap<bigint>"
  | extendedAddressAmounts => "ExtendedAddressMap<bigint>"
  | bytes | bytes4 | bytes32 => "Uint8Array"
  | bytesArray | bufferArray => "Uint8Array[]"
  | bool => "boolean"
  | string => "string"
  | stringArray => "string[]"
  | schnorrSignature => "SchnorrSignature"
  | uint8Array | uint16Array | uint32Array => "number[]"
  | uint64Array | uint128Array | uint256Array => "bigint[]"

/-- The hint types that live in the transaction library. -/
def importable : List Text := ["Address", "AddressMap", "ExtendedAddressMap", "SchnorrSignature"]

/-- A hint without its type arguments and array brackets. -/
def hintBase (hint : Text) : Text :=
  let name := hint.toList.takeWhile (· ≠ CodePoint.char '<')
  Text.ofList (name.reverse.dropWhile fun (c : CodePoint) => c = '[' || c = ']').reverse

/-- The names a hint imports from the transaction library, at most one. -/
def hintImports (hint : Text) : List Text :=
  if hintBase hint ∈ importable then [hintBase hint] else []

end ContractAbi.AbiType
