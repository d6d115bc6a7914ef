import ContractAbi.Text.Basic

/-!
# ABI types

Every type has one tag, one canonical spelling and any number of further accepted spellings. The
canonical spelling is what signatures are made of.
-/

namespace ContractAbi

inductive AbiType where
  | address | extendedAddress | bool | bytes
  | uint256 | uint128 | uint64 | uint32 | uint16 | uint8
  | int128 | int64 | int32 | int16 | int8
  | string | bytes4 | bytes32 | schnorrSignature
  | addressAmounts | extendedAddressAmounts
  | addressArray | extendedAddressArray
  | uint256Array | uint128Array | uint64Array | uint32Array | uint16Array | uint8Array
  | bytesArray | bufferArray | stringArray
deriving DecidableEq, Repr

namespace AbiType

def all : List AbiType := [
  address, extendedAddress, bool, bytes,
  uint256, uint128, uint64, uint32, uint16, uint8,
  int128, int64, int32, int16, int8,
  string, bytes4, bytes32, schnorrSignature,
  addressAmounts, extendedAddressAmounts,
  addressArray, extendedAddressArray,
  uint256Array, uint128Array, uint64Array, uint32Array, uint16Array, uint8Array,
  bytesArray, bufferArray, stringArray]

/-- The name of a type in manifests and in the client's enumeration. -/
def tag : AbiType → Text
  | address => "ADDRESS"
  | extendedAddress => "EXTENDED_ADDRESS"
  | bool => "BOOL"
  | bytes => "BYTES"
  | uint256 => "UINT256"
  | uint128 => "UINT128"
  | uint64 => "UINT64"
  | uint32 => "UINT32"
  | uint16 => "UINT16"
  | uint8 => "UINT8"
  | int128 => "INT128"
  | int64 => "INT64"
  | int32 => "INT32"
  | int16 => "INT16"
  | int8 => "INT8"
  | string => "STRING"
  | bytes4 => "BYTES4"
  | bytes32 => "BYTES32"
  | schnorrSignature => "SCHNORR_SIGNATURE"
  | addressAmounts => "ADDRESS_UINT256_TUPLE"
  | extendedAddressAmounts => "EXTENDED_ADDRESS_UINT256_TUPLE"
  | addressArray => "ARRAY_OF_ADDRESSES"
  | extendedAddressArray => "ARRAY_OF_EXTENDED_ADDRESSES"
  | uint256Array => "ARRAY_OF_UINT256"
  | uint128Array => "ARRAY_OF_UINT128"
  | uint64Array => "ARRAY_OF_UINT64"
  | uint32Array => "ARRAY_OF_UINT32"
  | uint16Array => "ARRAY_OF_UINT16"
  | uint8Array => "ARRAY_OF_UINT8"
  | bytesArray => "ARRAY_OF_BYTES"
  | bufferArray => "ARRAY_OF_BUFFERS"
  | stringArray => "ARRAY_OF_STRING"

theorem find?_tag (t : AbiType) : all.find? (·.tag = t.tag) = some t := by
  cases t <;> rfl

theorem tag_inj {s t : AbiType} : s.tag = t.tag ↔ s = t := by
  refine ⟨fun same => ?_, congrArg tag⟩
  have found := find?_tag s
  rw [same, find?_tag] at found
  exact (Option.some_inj.mp found).symm

def canonical : AbiType → Text
  | address => "address"
  | extendedAddress => "extendedAddress"
  | bool => "bool"
  | bytes => "bytes"
  | uint256 => "uint256"
  | uint128 => "uint128"
  | uint64 => "uint64"
  | uint32 => "uint32"
  | uint16 => "uint16"
  | uint8 => "uint8"
  | int128 => "int128"
  | int64 => "int64"
  | int32 => "int32"
  | int16 => "int16"
  | int8 => "int8"
  | string => "string"
  | bytes4 => "bytes4"
  | bytes32 => "bytes32"
  | schnorrSignature => "schnorrSignature"
  | addressAmounts => "tuple(address,uint256)[]"
  | extendedAddressAmounts => "tuple(extendedAddress,uint256)[]"
  | addressArray => "address[]"
  | extendedAddressArray => "extendedAddress[]"
  | uint256Array => "uint256[]"
  | uint128Array => "uint128[]"
  | uint64Array => "uint64[]"
  | uint32Array => "uint32[]"
  | uint16Array => "uint16[]"
  | uint8Array => "uint8[]"
  | bytesArray => "bytes[]"
  | bufferArray => "buffer[]"
  | stringArray => "string[]"

/-! ### Accepted spellings -/

/-- Marks a member of the client's enumeration. -/
def enumQualifier : Text := "ABIDataTypes."

def scalarAliases : List (Text × AbiType) := [
  ("u256", uint256), ("u128", uint128), ("u64", uint64), ("u32", uint32), ("u16", uint16),
  ("u8", uint8), ("i128", int128), ("i64", int64), ("i32", int32), ("i16", int16), ("i8", int8),
  ("boolean", bool), ("String", string), ("Uint8Array", bytes), ("Address", address),
  ("ExtendedAddress", extendedAddress), ("extended_address", extendedAddress),
  ("SchnorrSignature", schnorrSignature), ("schnorr_signature", schnorrSignature)]

def arrayAliases : List (Text × AbiType) := [
  ("Address[]", addressArray), ("ExtendedAddress[]", extendedAddressArray),
  ("extended_address[]", extendedAddressArray), ("u256[]", uint256Array), ("u128[]", uint128Array),
  ("u64[]", uint64Array), ("u32[]", uint32Array), ("u16[]", uint16Array), ("u8[]", uint8Array),
  ("Uint8Array[]", bytesArray), ("String[]", stringArray)]

def tupleAliases : List (Text × AbiType) := [
  ("AddressMap<u256>", addressAmounts), ("ExtendedAddressMap<u256>", extendedAddressAmounts),
  ("tuple(extended_address,uint256)[]", extendedAddressAmounts)]

/-- Every accepted spelling. A type's canonical spelling and its enumeration member come first. -/
def spellings : List (Text × AbiType) :=
  all.flatMap (fun t => [(t.canonical, t), (enumQualifier ++ t.tag, t)]) ++
    scalarAliases ++ arrayAliases ++ tupleAliases

/-- The type with this accepted spelling. Case matters, and so do blanks. -/
def ofSpelling? (spelling : Text) : Option AbiType :=
  spellings.lookup spelling

def isSpelling (spelling : Text) : Bool :=
  (ofSpelling? spelling).isSome

def canonicalSpelling? (spelling : Text) : Option Text :=
  (ofSpelling? spelling).map canonical

/-- Whether the spelling has the form of an enumeration member, known or not. -/
def isEnumQualified (spelling : Text) : Bool :=
  enumQualifier.toList.isPrefixOf spelling.toList

end AbiType

end ContractAbi
