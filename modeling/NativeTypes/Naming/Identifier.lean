/-
NativeTypes.Naming.Identifier — identifiers out of native names, and those
of the members of one declaration.

A star becomes `_ptr`, an ampersand `_ref`; what else cannot stand in an
identifier separates parts, which are joined by underscores. An identifier
that would start with a digit takes an underscore in front; a name without
any part is `unnamed`.

Declarations stay clear of the runtime that generated code imports, of the
tokens of scalars, of the keywords of the generated language and of the
built-ins it relies on. Members stay clear of keywords and of the
attributes of the runtime base classes: such a name takes an underscore
behind it, one that another member has already the first free number from
two on. A member without a name is called by its place.
-/
import NativeTypes.Primitive

namespace NativeTypes.Naming

/-- A character of an identifier: a letter or digit of ASCII, or the underscore. -/
def isIdentifierChar (c : Char) : Bool := c.isAlphanum || c == '_'

/-- Stars and ampersands spelled out. -/
def spellOut (cs : List Char) : List Char :=
  cs.flatMap fun c =>
    if c == '*' then "_ptr".toList else if c == '&' then "_ref".toList else [c]

/-- The maximal runs of identifier characters. -/
def parts : List Char → List (List Char)
  | [] => []
  | c :: cs =>
    if isIdentifierChar c then
      match cs.head?.any isIdentifierChar, parts cs with
      | true, p :: ps => (c :: p) :: ps
      | _, ps => [c] :: ps
    else parts cs

/-- A name that does not start with a digit. -/
def guardDigit : List Char → List Char
  | [] => []
  | c :: cs => if c.isDigit then '_' :: c :: cs else c :: cs

/-- The identifier for a native name, as characters. -/
def sanitizeChars (cs : List Char) : List Char :=
  match parts (spellOut cs) with
  | [] => "unnamed".toList
  | ps => guardDigit (List.intercalate ['_'] ps)

/-- The identifier for a native name. -/
def sanitize (name : String) : String := String.ofList (sanitizeChars name.toList)

/-- The keywords of the generated language. -/
def keywords : List String :=
  ["False", "None", "True", "and", "as", "assert", "async", "await", "break", "class", "continue",
   "def", "del", "elif", "else", "except", "finally", "for", "from", "global", "if", "import",
   "in", "is", "lambda", "nonlocal", "not", "or", "pass", "raise", "return", "try", "while",
   "with", "yield"]

/-- The names that generated code imports. -/
def runtimeNames : List String :=
  ["UserType", "Variable", "Pointer", "Array", "CodeFunction", "NativeEnum", "ctypes",
   "Structure", "Union"]

/-- The names that no declaration takes. -/
def reservedIdentifiers : List String :=
  runtimeNames ++ Primitive.all.map Primitive.token ++ keywords ++
    ["property", "object", "int", "str", "None", "True", "False"]

/-- The attributes of the runtime base classes, which no member may shadow. -/
def memberReserved : List String :=
  ["read_field", "read_bitfield", "base_class", "address", "cast", "memory", "size",
   "native_name", "native_size", "_fields_", "_pack_", "_anonymous_"]

/-- `base`, or `base` with the first number from `n` on that leads to a free name, among
`tries` candidates. -/
def numbered (free : String → Bool) (base : String) : (tries n : Nat) → Option String
  | 0, _ => none
  | tries + 1, n =>
    let candidate := base ++ "_" ++ toString n
    if free candidate then some candidate else numbered free base tries (n + 1)

/-- The name a member starts from. -/
def memberBase (reserved : List String) (index : Nat) (raw : String) : String :=
  let base := if raw.isEmpty then "unnamed_" ++ toString index else sanitize raw
  if memberReserved.contains base || keywords.contains base || reserved.contains base then
    base ++ "_"
  else base

/-- `base` if it is free, else its first free number. So many numbers as there are names in
the way, and one more, are enough. -/
def firstFree (taken : List String) (base : String) : String :=
  if taken.contains base then
    (numbered (fun name => !taken.contains name) base (taken.length + 1) 2).getD base
  else base

/-- Identifiers for the members from `index` on, apart from those `used` before. -/
def allocateFrom (reserved used : List String) (index : Nat) : List String → List String
  | [] => []
  | raw :: rest =>
    let ident := firstFree (used ++ reserved) (memberBase reserved index raw)
    ident :: allocateFrom reserved (ident :: used) (index + 1) rest

/-- Identifiers for members with the given names, in their order. -/
def allocateMembers (names reserved : List String) : List String :=
  allocateFrom reserved [] 0 names

end NativeTypes.Naming
