/-
NativeTypes.TypeName.Builtin — the built-in types of C and C++ as their
words name them.

A built-in type is spelled by words in any order: `long unsigned int` and
`unsigned long` are one type. `ofWords` collapses every list of words to
one of seventeen types and `spelling` gives the words it is shown with.
-/
namespace NativeTypes

/-- A type that is named by built-in words. -/
inductive Builtin
  | void
  | bool
  | char
  | signedChar
  | unsignedChar
  | wchar
  | short
  | unsignedShort
  | int
  | unsignedInt
  | long
  | unsignedLong
  | longLong
  | unsignedLongLong
  | float
  | double
  | longDouble
  deriving DecidableEq, Repr

namespace Builtin

/-- The words a built-in type is shown with. -/
def spelling : Builtin → String
  | void => "void"
  | bool => "bool"
  | char => "char"
  | signedChar => "signed char"
  | unsignedChar => "unsigned char"
  | wchar => "wchar_t"
  | short => "short"
  | unsignedShort => "unsigned short"
  | int => "int"
  | unsignedInt => "unsigned int"
  | long => "long"
  | unsignedLong => "unsigned long"
  | longLong => "long long"
  | unsignedLongLong => "unsigned long long"
  | float => "float"
  | double => "double"
  | longDouble => "long double"

/-- The words that make up built-in types. -/
def vocabulary : List String :=
  ["unsigned", "signed", "short", "long", "int", "char", "double", "float", "bool", "void",
   "wchar_t"]

/-- The integer type of a given width, signed or not. -/
def integer (unsigned short : Bool) (longs : Nat) : Builtin :=
  match unsigned, short, longs with
  | false, true, _ => .short
  | true, true, _ => .unsignedShort
  | false, false, 0 => .int
  | true, false, 0 => .unsignedInt
  | false, false, 1 => .long
  | true, false, 1 => .unsignedLong
  | false, false, _ + 2 => .longLong
  | true, false, _ + 2 => .unsignedLongLong

/-- The type that `words` name, in any order. `char` decides before `double`, that before
the other floating, boolean and character words; words without any of these name an
integer, and so do no words at all. -/
def ofWords (words : List String) : Builtin :=
  let unsigned := words.contains "unsigned"
  let signed := words.contains "signed"
  let longs := words.count "long"
  if words.contains "char" then
    if unsigned then .unsignedChar else if signed then .signedChar else .char
  else if words.contains "double" then
    if longs = 0 then .double else .longDouble
  else if words.contains "float" then .float
  else if words.contains "bool" then .bool
  else if words.contains "void" then .void
  else if words.contains "wchar_t" then .wchar
  else integer unsigned (words.contains "short") longs

end Builtin

end NativeTypes
