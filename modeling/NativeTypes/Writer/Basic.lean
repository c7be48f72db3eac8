/-
NativeTypes.Writer.Basic — writers: one for each flavour of generated code.

A writer turns each declaration into a fragment: a statement that goes in
front of all others, a statement in its place, or both. Fragments are
assembled between a prologue and an epilogue that lists what is exported.
-/
import NativeTypes.Naming.Allocate
import NativeTypes.Writer.Emitter

namespace NativeTypes

/-- How a writer is set up. -/
structure WriterOptions where
  truncateNamespace : Bool := true
  runtimeModule : String := "dbgscript.runtime"
  deriving DecidableEq, Repr

/-- One statement of generated code. -/
structure Statement where
  /-- The identifier that it binds. -/
  binds : Option String := none
  /-- The identifiers of declarations that it evaluates. -/
  uses : List String := []
  text : String

/-- The code of one declaration. -/
structure Fragment where
  handle : Handle
  identifier : String
  prelude : Option Statement := none
  body : Option Statement := none

/-- The text of a statement that may be missing. -/
def Fragment.textOf (s : Option Statement) : String := (s.map Statement.text).getD ""

/-- Why a declaration is not rendered. -/
inductive RenderFault
  /-- The instance has no identifier. -/
  | unnamed (shown : String)
  /-- Instances of this kind have no declarations. -/
  | undeclarable (kind name : String)
  /-- The names are not at hand. -/
  | outside
  /-- There is no table of names to search, or to ask for a name. -/
  | noTable (searched : Bool)
  /-- A field has no name among those of the members. -/
  | namelessMember
  /-- The instance has no members to read, or nothing that says what it is. -/
  | shapeless
  /-- A number cannot be written. -/
  | tooManyDigits
  /-- Rendering broke. -/
  | broken (why : String)
  deriving DecidableEq, Repr

namespace RenderFault

/-- The class of a fault. -/
def label : RenderFault → String
  | unnamed _ => "KeyError"
  | undeclarable .. => "TypeError"
  | outside | broken _ => "RuntimeError"
  | noTable searched => if searched then "TypeError" else "AttributeError"
  | shapeless => "AttributeError"
  | namelessMember => "IndexError"
  | tooManyDigits => "ValueError"

/-- The words for a fault. -/
def message : RenderFault → String
  | unnamed shown => shown
  | undeclarable kind name => kind ++ " " ++ name ++ " has no declaration"
  | outside => "writer used outside render_declaration()"
  | noTable searched =>
    if searched then "argument of type 'NoneType' is not iterable"
    else "'NoneType' object has no attribute 'get'"
  | namelessMember => "list index out of range"
  | shapeless => "kind"
  | tooManyDigits => Text.tooManyDigits
  | broken why => why

/-- A fault with its class. -/
def text (e : RenderFault) : String := e.label ++ ": " ++ e.message

end RenderFault

/-- The identifiers of the members of a declaration, clear of the given names. -/
abbrev MemberNames := Handle → List String → List String

/-- A flavour of generated code. -/
structure Writer where
  name : String
  options : WriterOptions
  /-- A reference to a type; without a table of names, as far as none is needed. -/
  reference : Graph → Option NameTable → Handle → Except RenderFault String
  /-- The code of a declaration. -/
  declare : Graph → NameTable → MemberNames → Handle → Except RenderFault Fragment
  /-- What the members of a declaration stay clear of. -/
  reserved : Graph → Option NameTable → Handle → Except RenderFault (List String)
  /-- The whole source of a module. -/
  assemble : Graph → String → List Fragment → String

namespace Writer

/-- The comment at the head of generated code. -/
def headerComment (style module : String) : List String :=
  ["# Generated by dbgcodegen (" ++ style ++ " writer) for module " ++ Text.quoted module ++ ".",
   "# Do not edit: regenerate from the module's debug information instead."]

/-- The list of exported identifiers, in order. -/
def epilogue (exported : List String) : String :=
  let sorted := exported.mergeSort fun a b => a ≤ b
  let e : Emitter := {}
  if sorted.isEmpty then (e.emit "__all__ = []").text
  else
    ((e.block "__all__ = [" fun e =>
      e.emitLines (sorted.map fun ident => Text.quoted ident ++ ",")).emit "]").text

/-- The text without the line ends behind it. -/
def trimLines (text : String) : String :=
  String.ofList (text.toList.reverse.dropWhile (· == '\n')).reverse

/-- The parts of a source with two empty lines between them; empty parts are left out. -/
def joinParts (parts : List String) : String :=
  "\n\n\n".intercalate ((parts.map trimLines).filter fun p => !p.isEmpty) ++ "\n"

/-- Fails unless what is to be written next can be written. -/
def needWritable (writable : Bool) : Except RenderFault Unit :=
  if writable then .ok () else .error .tooManyDigits

/-- What documentation says about a type. -/
def describe (g : Graph) (h : Handle) : Except RenderFault String := do
  needWritable ((g.byteSize h).all Text.isWritable)
  let what := match g.get h with
    | .aggregate a => if a.isUnion then "union" else "type"
    | .enumeration _ => "enum"
    | _ => "type"
  let size := match g.byteSize h with
    | some n => " (" ++ toString n ++ " bytes)"
    | none => ""
  return "Native " ++ what ++ " ``" ++ g.displayName h ++ "``" ++ size ++ "."

/-- The identifier of a declaration. -/
def nameOf (g : Graph) (names : NameTable) (h : Handle) : Except RenderFault String :=
  match names.get? h with
  | some name => .ok name
  | none => .error (.unnamed (g.shown h))

/-- The fault of declaring what has no declaration. -/
def undeclarable (g : Graph) (h : Handle) : RenderFault :=
  .undeclarable (g.get h).kindWord (g.displayName h)

end Writer

end NativeTypes
