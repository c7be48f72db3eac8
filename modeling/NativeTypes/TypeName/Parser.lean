/-
NativeTypes.TypeName.Parser — whole texts as type names.

`TypeName.parse` reads a whole text; `normalize` gives its canonical
spelling and `nameKey?` also answers for texts that are no type names, by
collapsing their blanks, so that every text has a key to be looked up by.
The one exception are names that hold a number which was read in base
sixteen and is too long for the canonical spelling, which is decimal.
-/
import NativeTypes.Text.Quoted
import NativeTypes.TypeName.Scanner

namespace NativeTypes

open NativeTypes.Text

/-- Why a text is no type name. -/
inductive SyntaxReason
  | blank
  | shape
  | number
  deriving DecidableEq, Repr

/-- The words for a reason. -/
def SyntaxReason.text : SyntaxReason → String
  | blank => "empty name"
  | shape => "syntax error"
  | number => "bad number"

/-- A text that is no type name. -/
structure NameSyntaxError where
  text : String
  reason : SyntaxReason
  deriving DecidableEq, Repr

/-- What is said of a name, given as it is shown, before the reason. -/
def NameSyntaxError.complaint (shown : String) : String := "cannot parse type name " ++ shown

/-- The message, with the reason. -/
def NameSyntaxError.message (e : NameSyntaxError) : String :=
  complaint (quoted e.text) ++ ": " ++ e.reason.text

/-- Why a text has no canonical spelling. -/
inductive SpellingFault
  | malformed (fault : NameSyntaxError)
  /-- A number cannot be written. -/
  | tooManyDigits
  deriving DecidableEq, Repr

namespace TypeName

/-- A type name at the front of `cs`, nested as deeply as `cs` can hold. -/
def scan (cs : List Char) : Option (Option TypeName × List Char) :=
  Scanner.typeName (Scanner.argument cs.length) cs

/-- Characters that are a type name from end to end. -/
def parseChars (cs : List Char) : Except SyntaxReason TypeName :=
  if cs.all isBlank then .error .blank
  else
    match scan cs with
    | some (some t, []) => .ok t
    | some (none, []) => .error .number
    | _ => .error .shape

/-- The type name that a text spells. -/
def parse (text : String) : Except NameSyntaxError TypeName :=
  (parseChars text.toList).mapError (NameSyntaxError.mk text)

/-- The type name that a text spells, if it does. -/
def parse? (text : String) : Option TypeName := (parse text).toOption

/-- The canonical text of a name, if all its numbers can be written. -/
def written? (t : TypeName) : Option String := if t.isWritable then some t.format else none

/-- The canonical spelling of a type name. -/
def normalize (text : String) : Except SpellingFault String :=
  match parse text with
  | .ok t => t.written?.elim (.error .tooManyDigits) .ok
  | .error fault => .error (.malformed fault)

/-- What a text is looked up by: its canonical spelling, or the text with its blanks
collapsed when it is no type name. A name that cannot be written has no key. -/
def nameKey? (text : String) : Option String :=
  match parse text with
  | .ok t => t.written?
  | .error _ => some (String.ofList (collapse text.toList))

/-- A type name without suffixes. -/
def parsePlain? (text : String) : Option TypeName :=
  (parse? text).filter fun t => t.suffixes.isEmpty

end TypeName

end NativeTypes
