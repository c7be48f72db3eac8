/-
NativeTypes.Text.Quoted — texts between quotes: as messages and generated
source show them, and as JSON.

The quote of messages is the single one, unless the text holds a single
quote and no double one. The quote itself and the backslash take a backslash
in front; line feed, carriage return and tab have short escapes; any other
hidden character becomes its code point in 2, 4 or 8 lower-case hex digits.

In JSON the double quote and the backslash take a backslash in front, five
controls have short escapes, and every other character outside printable
ASCII becomes `\uXXXX`, by its UTF-16 units when it lies beyond the basic
plane.
-/
import NativeTypes.Text.Printable

namespace NativeTypes.Text

/-- `n` in lower-case hex, filled with zeros up to `width` digits. -/
def hexFilled (width n : Nat) : List Char :=
  let digits := Nat.toDigits 16 n
  List.replicate (width - digits.length) '0' ++ digits

/-- `n` in lower-case hex with its sign. -/
def hexInt (n : Int) : List Char :=
  if n < 0 then '-' :: Nat.toDigits 16 n.natAbs else Nat.toDigits 16 n.natAbs

/-- The quote that a text is put between. -/
def quoteFor (cs : List Char) : Char :=
  if cs.contains '\'' && !cs.contains '"' then '"' else '\''

/-- One character as it stands between `quote`s. -/
def escapeChar (quote c : Char) : List Char :=
  if c == quote || c == '\\' then ['\\', c]
  else if c == '\n' then ['\\', 'n']
  else if c == '\r' then ['\\', 'r']
  else if c == '\t' then ['\\', 't']
  else if isPrintable c then [c]
  else if c.toNat < 0x100 then '\\' :: 'x' :: hexFilled 2 c.toNat
  else if c.toNat < 0x10000 then '\\' :: 'u' :: hexFilled 4 c.toNat
  else '\\' :: 'U' :: hexFilled 8 c.toNat

/-- The text between quotes. -/
def quoted (s : String) : String :=
  let quote := quoteFor s.toList
  String.ofList (quote :: s.toList.flatMap (escapeChar quote) ++ [quote])

/-- Quoted texts between parentheses; a single one keeps its comma. -/
def quotedTuple : List String → String
  | [s] => "(" ++ quoted s ++ ",)"
  | ss => "(" ++ ", ".intercalate (ss.map quoted) ++ ")"

end NativeTypes.Text

namespace NativeTypes.Text.Json

/-- One UTF-16 unit as an escape. -/
def escapeUnit (unit : Nat) : List Char := '\\' :: 'u' :: hexFilled 4 unit

/-- One character as it stands inside a literal. -/
def escapeChar (c : Char) : List Char :=
  if c == '"' || c == '\\' then ['\\', c]
  else if c == '\n' then ['\\', 'n']
  else if c == '\r' then ['\\', 'r']
  else if c == '\t' then ['\\', 't']
  else if c.toNat == 8 then ['\\', 'b']
  else if c.toNat == 12 then ['\\', 'f']
  else if 32 ≤ c.toNat && c.toNat < 127 then [c]
  else if c.toNat < 0x10000 then escapeUnit c.toNat
  else
    let offset := c.toNat - 0x10000
    escapeUnit (0xD800 + offset / 0x400) ++ escapeUnit (0xDC00 + offset % 0x400)

/-- A JSON string literal. -/
def literal (s : String) : String :=
  String.ofList ('"' :: s.toList.flatMap escapeChar ++ ['"'])

/-- An object whose members are all texts, in the given order. -/
def textObject (members : List (String × String)) : String :=
  "\x7b" ++ ", ".intercalate (members.map fun m => literal m.1 ++ ": " ++ literal m.2) ++ "\x7d"

end NativeTypes.Text.Json
