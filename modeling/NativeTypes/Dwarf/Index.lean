/-
NativeTypes.Dwarf.Index — types by name.

Names are qualified by the scopes and aggregates around them. The walk goes
through namespaces and aggregates only, so what is local to a function is
not found by name. Of several entries with one name the one that tells most
is kept, the first of those that tell as much.
-/
import NativeTypes.Dwarf.Entry
import NativeTypes.TypeName.Parser

namespace NativeTypes.Dwarf

/-- The name of a namespace that has none. -/
def unnamedScope : String := "(anonymous namespace)"

/-- The scope inside an entry; none when the walk does not enter it. -/
def innerScope? (scope : List String) (tag : Tag) (name : String) : Option (List String) :=
  if tag = .scope then some (scope ++ [if name.isEmpty then unnamedScope else name])
  else if tag.isAggregate then some (if name.isEmpty then scope else scope ++ [name])
  else none

mutual
/-- An entry and the entries below it that the walk meets, each with its scope. -/
def visitEntry (scope : List String) : Entry → List (List String × Entry)
  | .mk offset tag attributes children =>
    let e := Entry.mk offset tag attributes children
    (scope, e) :: (match innerScope? scope tag e.name with
      | some inner => visitEntries inner children
      | none => [])

/-- What the walk meets in several entries. -/
def visitEntries (scope : List String) : List Entry → List (List String × Entry)
  | [] => []
  | e :: es => visitEntry scope e ++ visitEntries scope es
end

/-- Entries by name, and the qualified names of entries. -/
structure Index where
  byName : Assoc String Entry := []
  qualified : Assoc Int String := []

namespace Index

/-- Keeps an entry under a key unless one that tells as much is there. -/
def offer (byName : Assoc String Entry) (key : String) (e : Entry) : Assoc String Entry :=
  match byName.get? key with
  | none => byName.put key e
  | some current => if current.score < e.score then byName.put key e else byName

/-- The name of an entry inside its scope. -/
def qualify (scope : List String) (e : Entry) : String := "::".intercalate (scope ++ [e.name])

/-- The entry is found by its name. -/
def isNamed (e : Entry) : Bool := e.tag.isIndexed && !e.name.isEmpty

/-- The index with one more entry, unless its name cannot be written. -/
def add? (index : Index) (met : List String × Entry) : Option Index :=
  if isNamed met.2 then
    let name := qualify met.1 met.2
    (TypeName.nameKey? name).map fun key =>
      { byName := offer index.byName key met.2
        qualified := index.qualified.put met.2.offset name }
  else some index

/-- The entries that are met below the tops of units. -/
def met (units : List Entry) : List (List String × Entry) :=
  units.flatMap fun unit => visitEntries [] unit.children

/-- The index of units, if every name in it can be written. -/
def ofUnits? (units : List Entry) : Option Index := (met units).foldlM add? {}

/-- Every name in order. -/
def names (index : Index) : List String :=
  (index.byName.map Prod.fst).mergeSort fun a b => a ≤ b

/-- The names of the types that are defined, in order. -/
def listed (index : Index) : List String :=
  ((index.byName.filter fun e => e.2.tag.isListed && !e.2.isDeclaration).map
    Prod.fst).mergeSort fun a b => a ≤ b

end Index

end NativeTypes.Dwarf
