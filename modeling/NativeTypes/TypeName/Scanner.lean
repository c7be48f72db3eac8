/-
NativeTypes.TypeName.Scanner — reading a type name off the front of a text.

A scanner takes the characters that are left and either does not apply or
gives a value and what is left behind it. Choices are ordered and final:
once an alternative applies no later one is tried, and repetitions take as
much as they can. The grammar:

    type      ← spaces qualifier* base spaces suffix* spaces
    base      ← (word spaces)+ / '::'? segment ('::' segment)*
    segment   ← name spaces ('<' (argument (',' argument)*)? '>')?
    argument  ← number / type
    suffix    ← '&&' / '&' / '*' / '[' number? ']' / qualifier
    name      ← special / identifier

where every token is followed by any number of spaces. A keyword ends where
no word character follows. Numbers are kept even when they are improper
(leading zeros, too many decimal digits): a scanner then gives `none` for the
value, so that the text still matches and the fault is told apart from a
syntax error.

Nesting is by level: `argument (n + 1)` reads type names whose arguments are
read by `argument n`. Every level consumes a `<`, so as many levels as the
text has characters read all of it.
-/
import NativeTypes.Text.Letter
import NativeTypes.Text.Word
import NativeTypes.TypeName.Basic

namespace NativeTypes

open NativeTypes.Text

/-- Reads a value off the front of a text. -/
abbrev Scanner (α : Type) := List Char → Option (α × List Char)

namespace Scanner

/-! ## 1. Combinators -/

/-- What is left behind `text`, if the input starts with it. -/
def after? : List Char → List Char → Option (List Char)
  | [], cs => some cs
  | _ :: _, [] => none
  | t :: ts, c :: cs => if t = c then after? ts cs else none

/-- The fixed text, with the spaces behind it. -/
def token (text : List Char) : Scanner Unit := fun cs =>
  (after? text cs).map fun rest => ((), skipSpaces rest)

/-- The fixed text where no word goes on. -/
def word (text : List Char) : Scanner Unit := fun cs =>
  (after? text cs).bind fun rest => if atWordEnd rest then some ((), rest) else none

/-- As often as the scanner applies and consumes something. -/
def many {α : Type} (p : Scanner α) (cs : List Char) : List α × List Char :=
  match p cs with
  | none => ([], cs)
  | some (a, rest) =>
    if rest.length < cs.length then
      let (as, rest) := many p rest
      (a :: as, rest)
    else ([], cs)
termination_by cs.length

/-- The first alternative if it applies, else the second. -/
def orElse {α : Type} (p q : Scanner α) : Scanner α := fun cs =>
  match p cs with
  | some r => some r
  | none => q cs

/-- Every value, if each of them is one. -/
def allSome {α : Type} : List (Option α) → Option (List α)
  | [] => some []
  | none :: _ => none
  | some a :: as => (allSome as).map (a :: ·)

/-! ## 2. Tokens -/

/-- One of the built-in words, with the spaces behind it. -/
def builtinWord : Scanner String := fun cs =>
  Builtin.vocabulary.findSome? fun w =>
    (word w.toList cs).map fun (_, rest) => (w, skipSpaces rest)

/-- A qualifier, which leaves no trace. -/
def qualifier : Scanner Unit := orElse (word "const".toList) (word "volatile".toList)

/-- A qualifier with the spaces behind it. -/
def qualifierToken : Scanner Unit := fun cs =>
  (qualifier cs).map fun (_, rest) => ((), skipSpaces rest)

/-- An identifier starts with a letter of ASCII, `_`, `$` or `~`. -/
def isNameStart (c : Char) : Bool := c.isAlpha || c == '_' || c == '$' || c == '~'

/-- An identifier goes on with letters and digits of ASCII, `_` and `$`. -/
def isNameChar (c : Char) : Bool := c.isAlphanum || c == '_' || c == '$'

/-- The characters between the angles of a special name, as in `<lambda-1>`. -/
def isSpecialChar (c : Char) : Bool := c.isAlphanum || c == '_' || c == ' ' || c == '-'

/-- A plain identifier. -/
def identifier : Scanner (List Char)
  | [] => none
  | c :: cs =>
    if isNameStart c then some (c :: cs.takeWhile isNameChar, cs.dropWhile isNameChar) else none

/-- A name in angles: at least one of its characters between `<` and `>`. -/
def angled : Scanner (List Char)
  | '<' :: cs =>
    match cs.takeWhile isSpecialChar, cs.dropWhile isSpecialChar with
    | [], _ => none
    | inner, '>' :: rest => some ('<' :: inner ++ ['>'], rest)
    | _, _ => none
  | _ => none

/-- The fixed text itself. -/
def exactly (text : List Char) : Scanner (List Char) := fun cs =>
  (after? text cs).map fun rest => (text, rest)

/-- A name that a compiler gives to what has none. -/
def special : Scanner (List Char) :=
  orElse (exactly "(anonymous namespace)".toList)
    (orElse (exactly "(anon namespace)".toList) angled)

/-- The name of a segment. -/
def name : Scanner (List Char) := orElse special identifier

/-! ## 3. Numbers -/

/-- A hexadecimal digit. -/
def isHexDigit (c : Char) : Bool :=
  c.isDigit || ('a' ≤ c && c ≤ 'f') || ('A' ≤ c && c ≤ 'F')

/-- The value of a hexadecimal digit. -/
def hexDigit (c : Char) : Nat :=
  if c.isDigit then c.toNat - '0'.toNat
  else if 'a' ≤ c && c ≤ 'f' then c.toNat - 'a'.toNat + 10
  else c.toNat - 'A'.toNat + 10

/-- The letters that may end a number. -/
def isNumberSuffix (c : Char) : Bool := c == 'u' || c == 'U' || c == 'l' || c == 'L'

/-- An optional sign: the factor it stands for. -/
def signFactor : List Char → Int × List Char
  | '-' :: cs => (-1, cs)
  | '+' :: cs => (1, cs)
  | cs => (1, cs)

/-- Digits of a base-16 number behind its mark. -/
def hexDigits : Scanner Nat
  | '0' :: x :: cs =>
    if (x == 'x' || x == 'X') && !(cs.takeWhile isHexDigit).isEmpty then
      some ((cs.takeWhile isHexDigit).foldl (fun n c => 16 * n + hexDigit c) 0,
        cs.dropWhile isHexDigit)
    else none
  | _ => none

/-- Decimal digits have a value unless they are too many or zeros lead a number other than
zero. -/
def decimalValue (ds : List Char) : Option Nat :=
  if ds.length > mostDigits then none
  else if ds.length > 1 && ds.head? == some '0' && !ds.all (· == '0') then none
  else some (Nat.ofDigitChars 10 ds 0)

/-- The digits of a decimal number. -/
def decimalDigits : Scanner (Option Nat) := fun cs =>
  if (cs.takeWhile Char.isDigit).isEmpty then none
  else some (decimalValue (cs.takeWhile Char.isDigit), cs.dropWhile Char.isDigit)

/-- The digits of a number, with their value if it is proper. -/
def magnitude : Scanner (Option Nat) := fun cs =>
  match hexDigits cs with
  | some (n, rest) => some (some n, rest)
  | none => decimalDigits cs

/-- A number with the letters that end it and the spaces behind it. -/
def number : Scanner (Option Int) := fun cs =>
  let (factor, cs) := signFactor cs
  (magnitude cs).map fun (n, rest) =>
    (n.map fun n => factor * (n : Int), skipSpaces (rest.dropWhile isNumberSuffix))

/-! ## 4. Suffixes -/

/-- The brackets of an array. -/
def brackets : Scanner (Option Suffix) := fun cs =>
  (token ['['] cs).bind fun (_, cs) =>
    match number cs with
    | some (n, rest) =>
      (after? [']'] rest).map fun rest => (n.map fun n => .array (some n), rest)
    | none => (after? [']'] cs).map fun rest => (some (.array none), rest)

/-- A suffix or a qualifier, with the spaces behind it. A qualifier gives no suffix. -/
def suffix : Scanner (Option (List Suffix)) := fun cs =>
  let found : Option (Option (List Suffix) × List Char) :=
    match cs with
    | '&' :: '&' :: rest => some (some [.reference], rest)
    | '&' :: rest => some (some [.reference], rest)
    | '*' :: rest => some (some [.pointer], rest)
    | _ =>
      match brackets cs with
      | some (s, rest) => some (s.map fun s => [s], rest)
      | none => (qualifier cs).map fun (_, rest) => (some [], rest)
  found.map fun (s, rest) => (s, skipSpaces rest)

/-! ## 5. Names -/

/-- Template arguments, given how one argument is read. -/
def arguments (argument : Scanner (Option Argument)) : Scanner (Option (List Argument)) :=
  fun cs =>
    (token ['<'] cs).bind fun (_, cs) =>
      let (as, cs) := match argument cs with
        | none => ([], cs)
        | some (a, cs) =>
          let (as, cs) := many (fun cs => (token [','] cs).bind fun (_, cs) => argument cs) cs
          (a :: as, cs)
      (token ['>'] cs).map fun (_, cs) => (allSome as, cs)

/-- One segment of a path. -/
def segment (argument : Scanner (Option Argument)) : Scanner (Option Segment) := fun cs =>
  (name cs).map fun (n, rest) =>
    let rest := skipSpaces rest
    match arguments argument rest with
    | some (as, rest) => (as.map fun as => .template (String.ofList n) as, rest)
    | none => (some (.plain (String.ofList n)), rest)

/-- The base made of a path: its last segment is set apart. -/
def pathBase (first : Segment) : List Segment → BaseName
  | [] => .path [] first
  | s :: ss =>
    match pathBase s ss with
    | .path scopes last => .path (first :: scopes) last
    | .builtin type => .builtin type

/-- A path of segments, with an optional scope mark in front. -/
def path (argument : Scanner (Option Argument)) : Scanner (Option BaseName) := fun cs =>
  let cs := match token scopeMark cs with
    | some (_, rest) => rest
    | none => cs
  (segment argument cs).map fun (s, rest) =>
    let (ss, rest) :=
      many (fun cs => (token scopeMark cs).bind fun (_, cs) => segment argument cs) rest
    (s.bind fun s => (allSome ss).map (pathBase s), rest)

/-- A run of built-in words. -/
def builtin : Scanner (Option BaseName) := fun cs =>
  match many builtinWord cs with
  | ([], _) => none
  | (ws, rest) => some (some (.builtin (Builtin.ofWords ws)), rest)

/-- A type name, given how one template argument is read. -/
def typeName (argument : Scanner (Option Argument)) : Scanner (Option TypeName) := fun cs =>
  let (_, cs) := many qualifierToken (skipSpaces cs)
  (orElse builtin (path argument) cs).map fun (base, rest) =>
    let (suffixes, rest) := many suffix (skipSpaces rest)
    (base.bind fun base => (allSome suffixes).map fun ss => .mk base ss.flatten, skipSpaces rest)

/-- A template argument with fewer than `n` levels of arguments inside it. -/
def argument : Nat → Scanner (Option Argument)
  | 0 => fun _ => none
  | n + 1 => fun cs =>
    match number cs with
    | some (v, rest) => some (v.map .number, rest)
    | none =>
      (typeName (argument n) cs).map fun (t, rest) => (t.map .type, rest)

end Scanner

end NativeTypes
