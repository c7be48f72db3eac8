/-
NativeTypes.TypeName.Basic — native type names: a base with the suffixes
that wrap it, and how a name is spelled.

A base is a built-in type or a path of segments separated by `::`; a segment
may carry template arguments, which are integers or type names again.
Qualifiers (`const`, `volatile`) are not part of a name: they do not change
the layout of what it names. `spell` gives the one canonical text of a name.
-/
import NativeTypes.Text.Letter
import NativeTypes.TypeName.Builtin

namespace NativeTypes

/-- What wraps the type in front of it. Both kinds of reference are one. -/
inductive Suffix
  | pointer
  | reference
  | array (length : Option Int)
  deriving DecidableEq, Repr

mutual
/-- A type name: a base and its suffixes, the first one next to the base. -/
inductive TypeName
  | mk (base : BaseName) (suffixes : List Suffix)

/-- A base: a built-in type, or a name inside the scopes that enclose it. -/
inductive BaseName
  | builtin (type : Builtin)
  | path (scopes : List Segment) (last : Segment)

/-- One component of a path, with or without template arguments. -/
inductive Segment
  | plain (name : String)
  | template (name : String) (arguments : List Argument)

/-- A template argument. -/
inductive Argument
  | number (value : Int)
  | type (name : TypeName)
end

instance : Inhabited Segment := ⟨.plain ""⟩
instance : Inhabited BaseName := ⟨.builtin .int⟩
instance : Inhabited TypeName := ⟨.mk default []⟩

namespace Suffix

/-- An integer in decimal, with its sign. -/
def spellInt (n : Int) : List Char :=
  if n < 0 then '-' :: Nat.toDigits 10 n.natAbs else Nat.toDigits 10 n.natAbs

/-- A suffix as it is written. -/
def spell : Suffix → List Char
  | pointer => ['*']
  | reference => ['&']
  | array none => ['[', ']']
  | array (some n) => '[' :: spellInt n ++ [']']

/-- The length, if there is one, can be written. -/
def isWritable : Suffix → Bool
  | array (some n) => Text.isWritable n
  | _ => true

/-- An array suffix. -/
def isArray : Suffix → Bool
  | array _ => true
  | _ => false

end Suffix

/-! ## 1. Spelling -/

/-- The mark between two segments. -/
def scopeMark : List Char := [':', ':']

/-- The mark between two template arguments. -/
def argumentMark : List Char := [',', ' ']

mutual
/-- The canonical text of a type name. -/
def TypeName.spell : TypeName → List Char
  | .mk base suffixes => base.spell ++ suffixes.flatMap Suffix.spell

/-- The canonical text of a base. -/
def BaseName.spell : BaseName → List Char
  | .builtin type => type.spelling.toList
  | .path scopes last => List.intercalate scopeMark (spellSegments scopes ++ [last.spell])

/-- The canonical text of a segment. -/
def Segment.spell : Segment → List Char
  | .plain name => name.toList
  | .template name arguments =>
    name.toList ++ '<' :: List.intercalate argumentMark (spellArguments arguments) ++ ['>']

/-- The canonical text of a template argument. -/
def Argument.spell : Argument → List Char
  | .number value => Suffix.spellInt value
  | .type name => name.spell

/-- The canonical texts of segments. -/
def spellSegments : List Segment → List (List Char)
  | [] => []
  | s :: ss => s.spell :: spellSegments ss

/-- The canonical texts of template arguments. -/
def spellArguments : List Argument → List (List Char)
  | [] => []
  | a :: as => a.spell :: spellArguments as
end

mutual
/-- Every number in a name can be written. -/
def TypeName.isWritable : TypeName → Bool
  | .mk base suffixes => base.isWritable && suffixes.all Suffix.isWritable

/-- Every number in a base can be written. -/
def BaseName.isWritable : BaseName → Bool
  | .builtin _ => true
  | .path scopes last => segmentsWritable scopes && last.isWritable

/-- Every number in a segment can be written. -/
def Segment.isWritable : Segment → Bool
  | .plain _ => true
  | .template _ arguments => argumentsWritable arguments

/-- Every number in a template argument can be written. -/
def Argument.isWritable : Argument → Bool
  | .number value => Text.isWritable value
  | .type name => name.isWritable

/-- Every number in the segments can be written. -/
def segmentsWritable : List Segment → Bool
  | [] => true
  | s :: ss => s.isWritable && segmentsWritable ss

/-- Every number in the template arguments can be written. -/
def argumentsWritable : List Argument → Bool
  | [] => true
  | a :: as => a.isWritable && argumentsWritable as
end

/-! ## 2. Parts of a name -/

namespace Segment

/-- The name of a segment without its arguments. -/
def name : Segment → String
  | plain name => name
  | template name _ => name

/-- The template arguments of a segment, none for a plain one. -/
def arguments : Segment → List Argument
  | plain _ => []
  | template _ arguments => arguments

/-- The segment carries an argument list, be it an empty one. -/
def isTemplate : Segment → Bool
  | plain _ => false
  | template _ _ => true

end Segment

namespace BaseName

/-- The scopes that enclose the last segment, outermost first. -/
def scopes : BaseName → List Segment
  | builtin _ => []
  | path scopes _ => scopes

/-- The last segment. -/
def last : BaseName → Segment
  | builtin type => .plain type.spelling
  | path _ last => last

/-- The base is a built-in type. -/
def isBuiltin : BaseName → Bool
  | builtin _ => true
  | path _ _ => false

end BaseName

namespace TypeName

/-- The base of a name. -/
def base : TypeName → BaseName
  | mk base _ => base

/-- The suffixes of a name, the first one next to the base. -/
def suffixes : TypeName → List Suffix
  | mk _ suffixes => suffixes

/-- The canonical text of a name. -/
def format (t : TypeName) : String := String.ofList t.spell

/-- The base with its scopes and template arguments. -/
def qualifiedName (t : TypeName) : String := String.ofList t.base.spell

/-- The enclosing scopes as one path. -/
def scopePath (t : TypeName) : String :=
  String.ofList (List.intercalate scopeMark (spellSegments t.base.scopes))

/-- The last segment with its template arguments. -/
def shortName (t : TypeName) : String := String.ofList t.base.last.spell

/-- The path without the template arguments of its last segment. -/
def baseName (t : TypeName) : String :=
  String.ofList
    (List.intercalate scopeMark (spellSegments t.base.scopes ++ [t.base.last.name.toList]))

/-- The name without its suffixes. -/
def withoutSuffixes (t : TypeName) : TypeName := mk t.base []

/-- The last segment carries template arguments. -/
def isTemplate (t : TypeName) : Bool := t.base.last.isTemplate

/-- The template arguments of the last segment. -/
def arguments (t : TypeName) : List Argument := t.base.last.arguments

/-- Suffixes in the order in which they wrap the base, given the array suffixes read last,
the latest first. Pointers and references apply from left to right; of a run of array
suffixes the rightmost is the innermost: `int[2][3]` is two arrays of three. -/
def wrappingFrom (run : List Suffix) : List Suffix → List Suffix
  | [] => run
  | s :: ss => if s.isArray then wrappingFrom (s :: run) ss else run ++ s :: wrappingFrom [] ss

/-- The suffixes in the order in which they wrap the base. -/
def wrapping (t : TypeName) : List Suffix := wrappingFrom [] t.suffixes

end TypeName

end NativeTypes
