/-
NativeTypes.Snapshot — the textual form of a catalog.

    (module <name>
      (pointer-size 8)
      (struct  "Name" <size> [(id N)]
        (base  "Type" <offset>)
        (field "name" "Type" <offset> [(bits <bit-offset> <bit-width>)]))
      (class   ...)                       ; same as struct
      (union   ...)
      (enum    "Name" "Underlying" [(id N)] (member "A" 0) ...)
      (typedef "Name" "Type" [(id N)])
      (function "Name" "Ret" ("P1" "P2") [variadic] [(id N)])
      (primitive "Name" <token>)
      (opaque  "Name"))

A size may be `unknown`. A type is referred to by a name or by the integer
of an `(id N)`. A text holds at least one module form. A fault ends the
loading and leaves what was loaded before it.
-/
import NativeTypes.Sexp.Form
import NativeTypes.Source.Catalog

namespace NativeTypes

/-- What is wrong with a snapshot. -/
inductive SnapshotFault
  | form (fault : FormError)
  | noModule
  | notModule (found : Sexp)
  | idArity (values : List Sexp)
  | unknownForm (module tag : String)
  | expected (module what : String)
  | expectedIn (module owner what : String)
  | unexpectedMember (module owner tag : String)
  | unknownToken (module : String) (fault : Primitive.UnknownToken)
  | parametersNotList (module : String)

/-- The words for a fault. -/
def SnapshotFault.message : SnapshotFault → String
  | form fault => fault.message
  | noModule => "snapshot contains no module"
  | notModule found => "expected (module NAME ...), got " ++ found.shown
  | idArity values => "(id N) takes one integer, got " ++ Sexp.shownList values
  | unknownForm module tag => module ++ ": unknown snapshot form (" ++ tag ++ " ...)"
  | expected module what => module ++ ": " ++ what
  | expectedIn module owner what => module ++ ": " ++ owner ++ ": " ++ what
  | unexpectedMember module owner tag =>
    module ++ ": " ++ owner ++ ": unexpected member form (" ++ tag ++ " ...)"
  | unknownToken module fault => module ++ ": " ++ fault.message
  | parametersNotList module => module ++ ": function parameters must be a list"

/-- How loading a snapshot ends early: by a fault of the text, at a form that lacks the value it
should hold, or at a name that cannot be written. -/
inductive SnapshotError
  | malformed (fault : SnapshotFault)
  | missingValue
  | tooManyDigits

namespace Snapshot

open Sexp

/-- Reading forms: a value or a fault. -/
abbrev Reading (α : Type) := Except SnapshotFault α

/-- A reading of plain forms. -/
def ofForm {α : Type} (r : Except FormError α) : Reading α := r.mapError .form

/-! ## 1. Options and atoms -/

/-- The options that may stand among the items of a form. -/
structure Options where
  id : Option (List Sexp) := none
  bits : Option (List Sexp) := none

/-- The items of a form apart from its options; of two equal options the later one counts. -/
def splitOptions : List Sexp → List Sexp × Options
  | [] => ([], {})
  | x :: xs =>
    let (items, options) := splitOptions xs
    match x with
    | list (symbol "id" :: values) => (items, { options with id := options.id.or (some values) })
    | list (symbol "bits" :: values) =>
      (items, { options with bits := options.bits.or (some values) })
    | _ => (x :: items, options)

/-- The id among the options. -/
def typeId (options : Options) : Reading (Option Int) :=
  match options.id with
  | none => .ok none
  | some [value] => (ofForm (value.asInteger "type id")).map some
  | some values => .error (.idArity values)

/-- A size, which may be unknown. -/
def size (x : Sexp) : Reading (Option Int) :=
  if x.isSymbol "unknown" then .ok none else (ofForm (x.asInteger "size")).map some

/-- A reference to a type. -/
def typeRef : Sexp → Reading Ref
  | integer value => .ok (.id value)
  | x => (ofForm (x.asText "type reference")).map .name

/-! ## 2. Structs and unions -/

/-- The bits of a field. -/
def bits (module owner : String) : Option (List Sexp) → Reading (Option Int × Option Int)
  | none => .ok (none, none)
  | some [offset, width] => do
    let offset ← ofForm (offset.asInteger "bit offset")
    let width ← ofForm (width.asInteger "bit width")
    return (some offset, some width)
  | some _ => .error (.expectedIn module owner "(bits OFFSET WIDTH) expected")

/-- The items of a field form. -/
def field (module owner : String) (items : List Sexp) : Reading FieldShape :=
  let (positional, options) := splitOptions items
  match positional with
  | [name, type, offset] => do
    let (bitOffset, bitWidth) ← bits module owner options.bits
    let name ← ofForm (name.asText "field name")
    let type ← typeRef type
    let offset ← ofForm (offset.asInteger "field offset")
    return { name, type, offset, bitOffset, bitWidth }
  | _ => .error (.expectedIn module owner "(field NAME TYPE OFFSET) expected")

/-- The items of a base form. -/
def base (module owner : String) : List Sexp → Reading BaseShape
  | [type, offset] => do
    let type ← typeRef type
    let offset ← ofForm (offset.asInteger "base offset")
    return { type, offset }
  | _ => .error (.expectedIn module owner "(base TYPE OFFSET) expected")

/-- The members of a struct or union: fields and bases, each in order. -/
def members (module owner : String) : List Sexp → Reading (List FieldShape × List BaseShape)
  | [] => .ok ([], [])
  | x :: xs => do
    let (tag, items) ← ofForm x.form
    if tag = "field" then
      let f ← field module owner items
      let (fields, bases) ← members module owner xs
      return (f :: fields, bases)
    else if tag = "base" then
      let b ← base module owner items
      let (fields, bases) ← members module owner xs
      return (fields, b :: bases)
    else .error (.unexpectedMember module owner tag)

/-- A shape and the id it is added under. -/
abbrev Entry := Shape × Option Int

/-- The items of a struct, class or union form. -/
def struct (module : String) (isUnion : Bool) (items : List Sexp) : Reading Entry :=
  let (positional, options) := splitOptions items
  match positional with
  | name :: bytes :: rest => do
    let name ← ofForm (name.asText "struct name")
    let bytes ← size bytes
    let (fields, bases) ← members module name rest
    return (Shape.ofAggregate name bytes fields bases isUnion, ← typeId options)
  | _ => .error (.expected module "(struct NAME SIZE ...) needs a name and size")

/-! ## 3. The other forms -/

/-- The members of an enumeration. -/
def enumerators (module owner : String) : List Sexp → Reading (List (String × Int))
  | [] => .ok []
  | x :: xs => do
    match ← ofForm x.form with
    | ("member", [name, value]) =>
      let name ← ofForm (name.asText "member name")
      let value ← ofForm (value.asInteger "member value")
      return (name, value) :: (← enumerators module owner xs)
    | _ => .error (.expectedIn module owner "(member NAME VALUE) expected")

/-- The items of an enumeration form. -/
def enumeration (module : String) (items : List Sexp) : Reading Entry :=
  let (positional, options) := splitOptions items
  match positional with
  | name :: underlying :: rest => do
    let name ← ofForm (name.asText "enum name")
    let members ← enumerators module name rest
    let underlying ← typeRef underlying
    return (Shape.ofEnumeration name (some underlying) members none, ← typeId options)
  | _ => .error (.expected module "(enum NAME UNDERLYING ...) expected")

/-- The items of a typedef form. -/
def typedef (module : String) (items : List Sexp) : Reading Entry :=
  let (positional, options) := splitOptions items
  match positional with
  | [name, target] => do
    let name ← ofForm (name.asText "typedef name")
    let target ← typeRef target
    return (Shape.ofAlias name target, ← typeId options)
  | _ => .error (.expected module "(typedef NAME TYPE) expected")

/-- The parameters of a function form. -/
def parameters (module : String) : List Sexp → Reading (List Ref)
  | [] => .ok []
  | list refs :: _ => refs.mapM typeRef
  | _ => .error (.parametersNotList module)

/-- The items of a function form. The word `variadic` may stand anywhere. -/
def function (module : String) (items : List Sexp) : Reading Entry :=
  let (positional, options) := splitOptions items
  let variadic := positional.any (isSymbol "variadic")
  match positional.filter fun x => !x.isSymbol "variadic" with
  | name :: result :: rest => do
    if rest.length > 1 then
      throw (.expected module "(function NAME RET (PARAMS...)) expected")
    let parameters ← parameters module rest
    let name ← ofForm (name.asText "function name")
    let result ← typeRef result
    return (Shape.ofFunction name result parameters variadic, ← typeId options)
  | _ => .error (.expected module "(function NAME RET (PARAMS...)) expected")

/-- The items of a primitive form. -/
def primitive (module : String) (items : List Sexp) : Reading Entry :=
  let (positional, options) := splitOptions items
  match positional with
  | [name, token] => do
    let token ← ofForm (token.asText "primitive token")
    let kind ← (Primitive.ofToken token).mapError (.unknownToken module)
    let name ← ofForm (name.asText "primitive name")
    return (Shape.ofPrimitive name kind, ← typeId options)
  | _ => .error (.expected module "(primitive NAME TOKEN) expected")

/-- The items of an opaque form. -/
def opaqueType (module : String) (items : List Sexp) : Reading Entry :=
  let (positional, options) := splitOptions items
  match positional with
  | [name] => do
    let name ← ofForm (name.asText "type name")
    return (Shape.ofUnsupported name, ← typeId options)
  | _ => .error (.expected module "(opaque NAME) expected")

/-- The shape that a form with this tag describes. -/
def entry (module tag : String) (items : List Sexp) : Reading Entry :=
  match tag with
  | "struct" | "class" => struct module false items
  | "union" => struct module true items
  | "enum" => enumeration module items
  | "typedef" => typedef module items
  | "function" => function module items
  | "primitive" => primitive module items
  | "opaque" => opaqueType module items
  | _ => .error (.unknownForm module tag)

/-! ## 4. Modules -/

/-- Loading into a catalog; what was loaded before an error stays. -/
abbrev Loading := EStateM SnapshotError Catalog

/-- A reading as a step of loading. -/
def ofReading {α : Type} : Reading α → Loading α
  | .ok a => pure a
  | .error fault => throw (.malformed fault)

/-- The pointer size that the forms of a module give; the last one counts. -/
def pointerSize (current : Int) : List Sexp → Except SnapshotError Int
  | [] => .ok current
  | x :: xs =>
    match x.form with
    | .error fault => .error (.malformed (.form fault))
    | .ok ("pointer-size", []) => .error .missingValue
    | .ok ("pointer-size", value :: _) =>
      match value.asInteger "pointer size" with
      | .ok n => pointerSize n xs
      | .error fault => .error (.malformed (.form fault))
    | .ok _ => pointerSize current xs

/-- One form of a module, added to the catalog. A shape whose name cannot be written ends the
loading, but its id is taken. -/
def loadForm (module : String) (x : Sexp) : Loading Unit := do
  let (tag, items) ← ofReading (ofForm x.form)
  if tag = "pointer-size" then return
  let (shape, id) ← ofReading (entry module tag items)
  modify fun c => c.add module shape id
  if ModuleTable.lacksKey shape then throw .tooManyDigits

/-- The forms of a module, in order. -/
def loadForms (module : String) : List Sexp → Loading Unit
  | [] => pure ()
  | x :: xs => do
    loadForm module x
    loadForms module xs

/-- A module form. -/
def loadModule (x : Sexp) : Loading Unit := do
  match ← ofReading (ofForm x.form) with
  | ("module", name :: body) =>
    let name ← ofReading (ofForm (name.asText "module name"))
    let bytes ← MonadExcept.ofExcept (pointerSize 8 body)
    modify fun c => c.addModule name bytes
    loadForms name body
  | _ => throw (.malformed (.notModule x))

/-- Module forms, in order. -/
def loadModules : List Sexp → Loading Unit
  | [] => pure ()
  | x :: xs => do
    loadModule x
    loadModules xs

/-- A whole snapshot. -/
def load (text : String) : Loading Unit := do
  let forms ← ofReading (ofForm (readForms text))
  if forms.isEmpty then throw (.malformed .noModule)
  loadModules forms

end Snapshot

end NativeTypes
