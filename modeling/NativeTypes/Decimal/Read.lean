/-
NativeTypes.Decimal.Read — numbers out of the text of an atom.

A number may have spaces at its ends and digits of any script. A single
underscore may stand between two digits. An integer is a sign and at most
4300 digits; a real also has a point, an exponent, or is one of the names
`inf`, `infinity` and `nan` in any case, and as many digits as it likes.
-/
import NativeTypes.Text.Letter

namespace NativeTypes.Decimal

open NativeTypes.Text

/-- A sign, if one stands here: `true` for minus. -/
def sign (cs : List Char) : Bool × List Char :=
  match cs with
  | '-' :: rest => (true, rest)
  | '+' :: rest => (false, rest)
  | _ => (false, cs)

/-- The digits that go on a number, a single underscore in front of some of them dropped. -/
def moreDigits : List Char → List Nat × List Char
  | [] => ([], [])
  | '_' :: c :: cs =>
    match digitValue? c with
    | some d => (d :: (moreDigits cs).1, (moreDigits cs).2)
    | none => ([], '_' :: c :: cs)
  | c :: cs =>
    match digitValue? c with
    | some d => (d :: (moreDigits cs).1, (moreDigits cs).2)
    | none => ([], c :: cs)

/-- The longest run of digits here, single underscores between two of them dropped. -/
def digits : List Char → List Nat × List Char
  | [] => ([], [])
  | c :: cs =>
    match digitValue? c with
    | some d => (d :: (moreDigits cs).1, (moreDigits cs).2)
    | none => ([], c :: cs)

/-- The number that decimal digits spell. -/
def value (ds : List Nat) : Nat := ds.foldl (fun n d => 10 * n + d) 0

/-- The integer that the whole text spells, leading zeros counted as digits. -/
def readInt? (text : List Char) : Option Int :=
  let (negative, rest) := sign (trimBy isSpace text)
  match digits rest with
  | ([], _) => none
  | (ds, []) =>
    if ds.length > mostDigits then none
    else some (if negative then -(value ds : Int) else value ds)
  | (_, _ :: _) => none

/-- Infinity. -/
def infinity : Float := 1.0 / 0.0

/-- The double nearest to `n · 10 ^ exponent`. Beyond the range of doubles by many places
it is infinity or zero, whatever the digits are. -/
def nearest (n : Nat) (exponent : Int) : Float :=
  let places : Int := exponent + (Nat.toDigits 10 n).length
  if n == 0 then 0.0
  else if places > 400 then infinity
  else if places < -400 then 0.0
  else if exponent < 0 then Float.ofScientific n true exponent.natAbs
  else Float.ofScientific n false exponent.natAbs

/-- The fraction and exponent of a real, with what follows them. -/
def exponentPart (cs : List Char) : Option (Int × List Char) :=
  match cs with
  | e :: rest =>
    if e == 'e' || e == 'E' then
      let (negative, rest) := sign rest
      match digits rest with
      | ([], _) => none
      | (ds, rest) => some (if negative then -(value ds : Int) else value ds, rest)
    else some (0, cs)
  | [] => some (0, [])

/-- A real without its sign, if the whole text is one. -/
def readUnsigned? (cs : List Char) : Option Float :=
  let lower := String.ofList (cs.map Char.toLower)
  if lower == "inf" || lower == "infinity" then some infinity
  else if lower == "nan" then some (0.0 / 0.0)
  else
    let (whole, rest) := digits cs
    let (fraction, rest) := match rest with
      | '.' :: rest => digits rest
      | _ => ([], rest)
    if whole.isEmpty && fraction.isEmpty then none
    else match exponentPart rest with
      | some (exponent, []) =>
        some (nearest (value (whole ++ fraction)) (exponent - fraction.length))
      | _ => none

/-- The real that the whole text spells. -/
def readReal? (text : List Char) : Option Float :=
  let (negative, rest) := sign (trimBy isSpace text)
  (readUnsigned? rest).map fun x => if negative then -x else x

end NativeTypes.Decimal
