/-
NativeTypes.Writer.Accessor — classes whose fields are read-only properties.

    class Node(UserType):
        """Native type ``Node`` (16 bytes)."""

        __native_name__ = 'Node'
        __native_size__ = 16

        @property
        def value(self) -> 'int32':
            return self.read_field(0, int32)

The first base at offset zero that has a declaration becomes the class that
is inherited from; every other base is a property too. Annotations are
texts, so declarations may refer to each other in any order.
-/
import NativeTypes.Writer.Basic

namespace NativeTypes.Accessor

/-! ## 1. Bases -/

/-- A base that is exposed by name. -/
structure ExposedBase where
  property : String
  part : BasePart

/-- The bases exposed by name, apart from the inherited one, clear of `used` names. -/
def exposeBases (g : Graph) (names : NameTable) (used : List String) :
    List BasePart → List ExposedBase
  | [] => []
  | b :: bs =>
    let label := (names.get? b.type).getD (g.displayName b.type)
    let property := Naming.firstFree used (Naming.sanitize ("base_" ++ label))
    ⟨property, b⟩ :: exposeBases g names (property :: used) bs

/-- The base can be inherited from. -/
def isInheritable (names : NameTable) (b : BasePart) : Bool := b.offset = 0 && names.has b.type

/-- The inherited base of an aggregate. -/
def inherited? (names : NameTable) (a : Aggregate) : Option BasePart :=
  a.bases.find? (isInheritable names)

/-- The list without the first element with property `p`. -/
def withoutFirst {α : Type} (p : α → Bool) : List α → List α
  | [] => []
  | x :: xs => if p x then xs else x :: withoutFirst p xs

/-- The exposed bases of an aggregate. -/
def exposed (g : Graph) (names : NameTable) (a : Aggregate) : List ExposedBase :=
  exposeBases g names [] (withoutFirst (isInheritable names) a.bases)

/-! ## 2. Properties -/

/-- A read-only property of a generated class. -/
structure Property where
  name : String
  annotation : String
  documentation : Option String
  value : String

/-- What the fields of an aggregate stay clear of: the exposed bases. -/
def reserved (g : Graph) (names : NameTable) (a : Aggregate) : List String :=
  (exposed g names a).map ExposedBase.property

/-- The identifiers of the fields of an aggregate. -/
def fieldNames (g : Graph) (names : NameTable) (a : Aggregate) : List String :=
  Naming.allocateMembers (a.fields.map FieldPart.name) (reserved g names a)

/-- The numbers of the expression that reads a field can be written. -/
def isWritable (f : FieldPart) : Bool :=
  Text.isWritable f.offset &&
    f.bitWidth.all fun width => Text.isWritable (f.bitOffset.getD 0) && Text.isWritable width

/-- The expression that reads a field. -/
def readExpression (f : FieldPart) (type : String) : String :=
  match f.bitWidth with
  | some width =>
    "self.read_bitfield(" ++ f.place ++ ", " ++ toString (f.bitOffset.getD 0) ++ ", " ++
      toString width ++ ", " ++ type ++ ")"
  | none => "self.read_field(" ++ f.place ++ ", " ++ type ++ ")"

/-- The property of an exposed base. -/
def baseProperty (reference : Handle → String) (b : ExposedBase) : Property :=
  ⟨b.property, reference b.part.type, none,
    "self.base_class(" ++ b.part.place ++ ", " ++ reference b.part.type ++ ")"⟩

/-- The property of a field; a name that had to change is documented. -/
def fieldProperty (reference : Handle → String) (f : FieldPart) (name : String) : Property :=
  ⟨name, reference f.type,
    if f.name = name then none else some ("Native field ``" ++ f.name ++ "``."),
    readExpression f (reference f.type)⟩

/-- The properties of the class of an aggregate: exposed bases, then fields under the given
names. -/
def properties (g : Graph) (names : NameTable) (reference : Handle → String)
    (memberNames : List String) (a : Aggregate) : List Property :=
  (exposed g names a).map (baseProperty reference) ++
    (a.fields.zip memberNames).map fun (f, name) => fieldProperty reference f name

/-- The numbers of the properties can be written. -/
def propertiesWritable (g : Graph) (names : NameTable) (memberNames : List String)
    (a : Aggregate) : Bool :=
  (exposed g names a).all (fun b => Text.isWritable b.part.offset) &&
    (a.fields.zip memberNames).all fun (f, _) => isWritable f

/-- Writes a property. -/
def emitProperty (e : Emitter) (p : Property) : Emitter :=
  ((e.emitBlank 1).emit "@property").block
    ("def " ++ p.name ++ "(self) -> " ++ Text.quoted p.annotation ++ ":") fun e =>
      let e := match p.documentation with
        | none => e
        | some text => e.emitDocstring text
      e.emit ("return " ++ p.value)

/-! ## 3. Declarations -/

/-- Template arguments as a literal: numbers as they are, types by their references. -/
def argumentsText (reference : Handle → String) (arguments : List TemplateArgument) : String :=
  let texts := arguments.map fun
    | .number n => toString n
    | .type h => Text.quoted (reference h)
  match texts with
  | [one] => "(" ++ one ++ ",)"
  | _ => "(" ++ ", ".intercalate texts ++ ")"

/-- What a class says about the aggregate as a whole. -/
def emitFacts (e : Emitter) (reference : Handle → String) (a : Aggregate) : Emitter :=
  let e := e.emit ("__native_name__ = " ++ Text.quoted a.qualifiedName)
  let e := e.emit ("__native_size__ = " ++ (a.size.map toString).getD "None")
  let e := if a.isUnion then e.emit "__native_union__ = True" else e
  match a.template with
  | none => e
  | some t =>
    (e.emit ("__template_name__ = " ++ Text.quoted t.baseName)).emit
      ("__template_arguments__ = " ++ argumentsText reference t.arguments)

/-- The class of an aggregate. -/
def aggregateText (g : Graph) (names : NameTable) (reference : Handle → String)
    (memberNames : List String) (ident documentation : String) (a : Aggregate) : String :=
  let parent := ((inherited? names a).bind fun b => names.get? b.type).getD "UserType"
  (Emitter.block {} ("class " ++ ident ++ "(" ++ parent ++ "):") fun e =>
    let e := (e.emitDocstring documentation).emitBlank 1
    (properties g names reference memberNames a).foldl emitProperty (emitFacts e reference a)).text

/-- The class of an enumeration. -/
def enumerationText (reference : Handle → String) (memberNames : List String)
    (ident documentation : String) (e : Enumeration) : String :=
  (Emitter.block {} ("class " ++ ident ++ "(NativeEnum):") fun out =>
    let out := (out.emitDocstring documentation).emitBlank 1
    let out := out.emit ("__native_name__ = " ++ Text.quoted e.qualifiedName)
    let out := out.emit ("__underlying_type__ = " ++ reference e.underlying)
    let out := if e.members.isEmpty then out else out.emitBlank 1
    out.emitLines ((memberNames.zip e.members).map fun (name, m) =>
      name ++ " = " ++ toString m.2)).text

/-- The class of a function type. -/
def functionText (reference : Handle → String) (ident displayName : String) (f : FunctionType) :
    String :=
  (Emitter.block {} ("class " ++ ident ++ "(CodeFunction):") fun e =>
    let e := (e.emitDocstring ("Native function type ``" ++ displayName ++ "``.")).emitBlank 1
    let e := e.emit ("__return_type__ = " ++ Text.quoted (reference f.result))
    let e := e.emit ("__parameter_types__ = " ++ Text.quotedTuple (f.parameters.map reference))
    e.emit ("__variadic__ = " ++ Text.truthText f.variadic)).text

/-- The code of a declaration. -/
def declare (options : WriterOptions) (g : Graph) (names : NameTable) (members : MemberNames)
    (h : Handle) : Except RenderFault Fragment :=
  let reference := g.typeReference options.truncateNamespace (some names)
  let fragment (ident : String) (uses : List String) (text : String) : Fragment :=
    { handle := h, identifier := ident, body := some { binds := some ident, uses, text } }
  match g.get h with
  | .aggregate a => do
    let ident ← Writer.nameOf g names h
    let parent := (inherited? names a).bind fun b => names.get? b.type
    let documentation ← Writer.describe g h
    let memberNames := members h (reserved g names a)
    Writer.needWritable (propertiesWritable g names memberNames a)
    return fragment ident parent.toList
      (aggregateText g names reference memberNames ident documentation a)
  | .enumeration e => do
    let ident ← Writer.nameOf g names h
    let documentation ← Writer.describe g h
    return fragment ident (names.get? e.underlying).toList
      (enumerationText reference (members h []) ident documentation e)
  | .function f => do
    let ident ← Writer.nameOf g names h
    return fragment ident [] (functionText reference ident (g.displayName h) f)
  | _ => .error (Writer.undeclarable g h)

/-! ## 4. The module -/

/-- What generated code imports from its runtime. -/
def imports : List String :=
  (["Array", "CodeFunction", "NativeEnum", "Pointer", "UserType", "Variable"] ++
    Primitive.all.map Primitive.token).mergeSort fun a b => a ≤ b

/-- What stands before the declarations. -/
def prologue (options : WriterOptions) (module : String) : String :=
  let e : Emitter := {}
  let e := e.emitLines (Writer.headerComment "accessor" module)
  let e := (e.emitDocstring ("Typed accessors for native module ``" ++ module ++ "``.")).emitBlank 1
  let e := e.block ("from " ++ options.runtimeModule ++ " import (") fun e =>
    e.emitLines (imports.map (· ++ ","))
  ((e.emit ")").emitBlank 1).emit ("__native_module__ = " ++ Text.quoted module) |>.text

/-- The whole source. -/
def assemble (options : WriterOptions) (_ : Graph) (module : String) (fragments : List Fragment) :
    String :=
  Writer.joinParts ([prologue options module] ++
    fragments.map (fun f => Fragment.textOf f.prelude) ++
    fragments.map (fun f => Fragment.textOf f.body) ++
    [Writer.epilogue (fragments.map Fragment.identifier)])

/-- The writer of accessor classes. -/
def writer (options : WriterOptions) : Writer where
  name := "accessor"
  options := options
  reference g names h := .ok (g.typeReference options.truncateNamespace names h)
  declare := declare options
  reserved g names? h :=
    match g.get h, names? with
    | .aggregate a, some names => .ok (reserved g names a)
    | .aggregate _, none => .error .outside
    | _, _ => .ok []
  assemble := assemble options

end NativeTypes.Accessor
