/-
NativeTypes.Primitive — the scalar types of fixed size.

Each kind has a token, by which it is written and found again
(`ofToken?_token`), and a size in bytes. Integers are found by size and
sign; the built-in names of C and C++ lead to kinds, those of `long`, of
sizes and of pointer differences by the size of a pointer.
-/
import NativeTypes.TypeName.Parser

namespace NativeTypes

/-- A scalar of fixed size. -/
inductive Primitive
  | void
  | bool
  | char
  | wchar
  | int8
  | uint8
  | int16
  | uint16
  | int32
  | uint32
  | int64
  | uint64
  | int128
  | uint128
  | float32
  | float64
  deriving DecidableEq, Repr

namespace Primitive

/-- Every kind, in the order of declaration. -/
def all : List Primitive :=
  [void, bool, char, wchar, int8, uint8, int16, uint16, int32, uint32, int64, uint64, int128,
   uint128, float32, float64]

/-- The token a kind is written with. -/
def token : Primitive → String
  | void => "void"
  | bool => "bool8"
  | char => "char8"
  | wchar => "char16"
  | int8 => "int8"
  | uint8 => "uint8"
  | int16 => "int16"
  | uint16 => "uint16"
  | int32 => "int32"
  | uint32 => "uint32"
  | int64 => "int64"
  | uint64 => "uint64"
  | int128 => "int128"
  | uint128 => "uint128"
  | float32 => "float32"
  | float64 => "float64"

/-- The name of a kind in capitals. -/
def label : Primitive → String
  | void => "VOID"
  | bool => "BOOL"
  | char => "CHAR"
  | wchar => "WCHAR"
  | int8 => "INT8"
  | uint8 => "UINT8"
  | int16 => "INT16"
  | uint16 => "UINT16"
  | int32 => "INT32"
  | uint32 => "UINT32"
  | int64 => "INT64"
  | uint64 => "UINT64"
  | int128 => "INT128"
  | uint128 => "UINT128"
  | float32 => "FLOAT32"
  | float64 => "FLOAT64"

/-- The size in bytes. -/
def size : Primitive → Nat
  | void => 0
  | bool | char | int8 | uint8 => 1
  | wchar | int16 | uint16 => 2
  | int32 | uint32 | float32 => 4
  | int64 | uint64 | float64 => 8
  | int128 | uint128 => 16

/-- Signed integers and floating numbers. -/
def isSigned : Primitive → Bool
  | int8 | int16 | int32 | int64 | int128 | float32 | float64 => true
  | _ => false

/-- All kinds but `void` and the floating ones. -/
def isIntegral : Primitive → Bool
  | void | float32 | float64 => false
  | _ => true

/-- The kind that a token stands for. -/
def ofToken? (token : String) : Option Primitive := all.find? fun kind => kind.token = token

theorem ofToken?_token (kind : Primitive) : ofToken? kind.token = some kind := by
  cases kind <;> decide

theorem token_of_ofToken? {token : String} {kind : Primitive} (h : ofToken? token = some kind) :
    kind.token = token := by
  unfold ofToken? at h
  simpa using List.find?_some h

/-- A token that no kind has. -/
structure UnknownToken where
  token : String
  deriving DecidableEq, Repr

/-- The message for an unknown token. -/
def UnknownToken.message (e : UnknownToken) : String :=
  "unknown primitive token " ++ Text.quoted e.token

/-- The kind that a token stands for. -/
def ofToken (token : String) : Except UnknownToken Primitive :=
  match ofToken? token with
  | some kind => .ok kind
  | none => .error ⟨token⟩

/-- Why a size or a name leads to no kind. -/
inductive Fault
  | unknownToken (fault : UnknownToken)
  /-- A number cannot be written. -/
  | tooManyDigits
  deriving DecidableEq, Repr

/-- The words for a fault. -/
def Fault.message : Fault → String
  | unknownToken fault => fault.message
  | tooManyDigits => Text.tooManyDigits

/-- The integer of `size` bytes. Only 1, 2, 4, 8 and 16 bytes have a kind. -/
def integer (size : Int) (signed : Bool) : Except Fault Primitive :=
  if Text.isWritable (size * 8) then
    (ofToken ((if signed then "int" else "uint") ++ toString (size * 8))).mapError .unknownToken
  else .error .tooManyDigits

/-! ## Built-in names -/

/-- Names whose kind is the same on every machine. -/
def fixedNames : List (String × Primitive) :=
  [("void", void), ("bool", bool), ("_Bool", bool), ("char", char), ("char8_t", char),
   ("signed char", int8), ("unsigned char", uint8), ("wchar_t", wchar), ("char16_t", wchar),
   ("char32_t", uint32), ("short", int16), ("unsigned short", uint16), ("int", int32),
   ("unsigned int", uint32), ("long long", int64), ("unsigned long long", uint64),
   ("float", float32), ("double", float64), ("long double", float64), ("__int8", int8),
   ("__int16", int16), ("__int32", int32), ("__int64", int64), ("__int128", int128),
   ("__int128_t", int128), ("__uint128_t", uint128), ("int8_t", int8), ("uint8_t", uint8),
   ("int16_t", int16), ("uint16_t", uint16), ("int32_t", int32), ("uint32_t", uint32),
   ("int64_t", int64), ("uint64_t", uint64)]

/-- Names of integers as wide as a pointer, and whether they are signed. -/
def pointerWideNames : List (String × Bool) :=
  [("long", true), ("unsigned long", false), ("size_t", false), ("ssize_t", true),
   ("ptrdiff_t", true), ("intptr_t", true), ("uintptr_t", false)]

/-- The name without a leading `std::`. -/
def withoutStd (name : String) : String :=
  match Scanner.after? "std::".toList name.toList with
  | some rest => String.ofList rest
  | none => name

/-- The kind of a built-in name. A name as wide as a pointer fails when no integer has the
size of a pointer. -/
def ofBuiltinName (name : String) (pointerSize : Int) : Except Fault (Option Primitive) :=
  match TypeName.normalize name with
  | .error .tooManyDigits => .error .tooManyDigits
  | .error (.malformed _) => .ok none
  | .ok text =>
    let text := withoutStd text
    match fixedNames.lookup text with
    | some kind => .ok (some kind)
    | none =>
      match pointerWideNames.lookup text with
      | some signed => (integer pointerSize signed).map some
      | none => .ok none

end Primitive

end NativeTypes
