/-
NativeTypes.Source.Catalog — shapes kept in tables, by name and by id.

Names are looked up by their key, so all spellings of a type are one query;
the built-in names of C and C++ need no entry. A typedef never takes the
name of a type away (`typedef struct Foo Foo;`), but it is still found by
its id, and so is a shape whose name cannot be written. A module that was
never mentioned is a failure, a type that a module does not have is not.
-/
import NativeTypes.Assoc
import NativeTypes.Source.Basic

namespace NativeTypes

/-- The tables of one module. -/
structure ModuleTable where
  pointerSize : Int := 8
  byName : Assoc String Shape := []
  byId : Assoc Int Shape := []
  deriving Repr

namespace ModuleTable

/-- The shape with the id it is added under. -/
def withId (shape : Shape) : Option Int → Shape
  | none => shape
  | some id => { shape with typeId := some id }

/-- The key that a shape is found by; one without a name has none, and neither has one whose
name cannot be written. -/
def keyOf? (shape : Shape) : Option String :=
  if shape.name.isEmpty then none else TypeName.nameKey? shape.name

/-- The name of a shape cannot be written, so the shape is not found by it. -/
def lacksKey (shape : Shape) : Bool := !shape.name.isEmpty && (keyOf? shape).isNone

/-- An alias stays out of the name table when its key has a shape that is no alias. -/
def hides (table : ModuleTable) (shape : Shape) (key : String) : Bool :=
  shape.kind = .typedef && ((table.byName.get? key).any fun old => old.kind ≠ .typedef)

/-- The name table with a shape that carries its id. -/
def addName (table : ModuleTable) (shape : Shape) : ModuleTable :=
  match keyOf? shape with
  | none => table
  | some key =>
    if table.hides shape key then table
    else { table with byName := table.byName.put key shape }

/-- The id table with a shape that carries its id. -/
def addId (table : ModuleTable) (shape : Shape) : Option Int → ModuleTable
  | none => table
  | some id => { table with byId := table.byId.put id shape }

/-- The tables with a shape under its name and, if one is given, under an id. -/
def add (table : ModuleTable) (shape : Shape) (id : Option Int) : ModuleTable :=
  (table.addId (withId shape id) id).addName (withId shape id)

/-- The shape behind a reference. -/
def lookup (table : ModuleTable) : Ref → Except Primitive.Fault (Option Shape)
  | .id value => .ok (table.byId.get? value)
  | .name text =>
    match TypeName.nameKey? text with
    | none => .error .tooManyDigits
    | some key =>
      match table.byName.get? key with
      | some shape => .ok (some shape)
      | none =>
        (Primitive.ofBuiltinName text table.pointerSize).map fun kind =>
          kind.map (Shape.ofPrimitive text)

/-- The names of all shapes but scalars and aliases, in order. -/
def typeNames (table : ModuleTable) : List String :=
  ((table.byName.filter fun entry =>
    entry.2.kind ≠ .primitive && entry.2.kind ≠ .typedef).map Prod.fst).mergeSort
      fun a b => a ≤ b

end ModuleTable

/-- The tables of several modules, with the number of look-ups made. -/
structure Catalog where
  tables : Assoc String ModuleTable := []
  queries : Nat := 0
  deriving Repr

namespace Catalog

/-- The tables of a module, empty if it is new. -/
def tableOrNew (c : Catalog) (module : String) : ModuleTable :=
  (c.tables.get? module).getD {}

/-- The catalog with a module and the size of its pointers. -/
def addModule (c : Catalog) (module : String) (pointerSize : Int) : Catalog :=
  { c with tables := c.tables.put module { c.tableOrNew module with pointerSize } }

/-- The catalog with a shape in a module. -/
def add (c : Catalog) (module : String) (shape : Shape) (id : Option Int) : Catalog :=
  { c with tables := c.tables.put module ((c.tableOrNew module).add shape id) }

/-- The modules in order. -/
def modules (c : Catalog) : List String :=
  (c.tables.map Prod.fst).mergeSort fun a b => a ≤ b

/-- The tables of a module that must be known. -/
def table (c : Catalog) (module : String) (query : Option Ref) : Except SourceFault ModuleTable :=
  match c.tables.get? module with
  | some table => .ok table
  | none => .error (.unknownModule module query)

/-- The shape behind a reference, without counting the look-up. -/
def shape? (c : Catalog) (module : String) (ref : Ref) : Except SourceFault (Option Shape) := do
  let table ← c.table module (some ref)
  (table.lookup ref).mapError .primitive

/-- A look-up, which counts whether it succeeds or not. -/
def lookup (c : Catalog) (module : String) (ref : Ref) :
    Except SourceFault (Option Shape) × Catalog :=
  (c.shape? module ref, { c with queries := c.queries + 1 })

/-- The names that a module lists. -/
def typeNames (c : Catalog) (module : String) : Except SourceFault (List String) :=
  (c.table module none).map ModuleTable.typeNames

/-- The size of the pointers of a module. -/
def pointerSize (c : Catalog) (module : String) : Except SourceFault Int :=
  (c.table module none).map ModuleTable.pointerSize

/-- A catalog as a source. -/
def source : Source Catalog where
  lookup := lookup
  typeNames := typeNames
  pointerSize := pointerSize

end Catalog

end NativeTypes
