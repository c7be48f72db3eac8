/-
NativeTypes.Writer.Declare — writers by name, declarations one after the
other, and members read by name.

Declaring gives out the names of members from a table that remembers them,
so that whoever reads a member later uses the name under which it was
declared. The table comes back from every step, also from one that fails.
What is done without a table fails as far as a name is needed.
-/
import NativeTypes.Naming.Allocate
import NativeTypes.Writer.Accessor
import NativeTypes.Writer.Basic
import NativeTypes.Writer.Ctypes

namespace NativeTypes.Writer

open NativeTypes.Naming (Names)

/-- The instance is an aggregate that lost what says so. -/
def isShapeless (g : Graph) (h : Handle) : Bool :=
  match g.get h with
  | .aggregate a => a.kindLost
  | _ => false

/-- The code of a declaration, clear of what its members are reserved from, with those names. -/
def declareNamed (w : Writer) (g : Graph) (names : Names) (h : Handle) :
    Except RenderFault (Fragment × List String) := do
  let fragment ← w.declare g names.table (names.members g) h
  return (fragment, ← w.reserved g (some names.table) h)

/-- The code of a declaration when no names are at hand: there is none, and what could have one
says so. -/
def declareUnnamed (w : Writer) (g : Graph) (h : Handle) : Except RenderFault Fragment :=
  (w.declare g [] (Naming.members g) h).mapError fun
    | .unnamed _ => .outside
    | e => e

/-- The code of a declaration; the names of its members are given out with it. -/
def declareOne (w : Writer) (g : Graph) (names? : Option Names) (h : Handle) :
    Except RenderFault Fragment × Option Names :=
  if isShapeless g h then (.error .shapeless, names?)
  else
    match names? with
    | none => (declareUnnamed w g h, none)
    | some names =>
      match declareNamed w g names h with
      | .ok (fragment, reserved) => (.ok fragment, some (names.record g h reserved))
      | .error e => (.error e, some names)

/-- The code of declarations in order, up to the first that fails. -/
def declareEach (w : Writer) (g : Graph) (names? : Option Names) :
    List Handle → Except RenderFault (List Fragment) × Option Names
  | [] => (.ok [], names?)
  | h :: hs =>
    match declareOne w g names? h with
    | (.error e, names?) => (.error e, names?)
    | (.ok fragment, names?) =>
      let (rest, names?) := declareEach w g names? hs
      (rest.map (fragment :: ·), names?)

/-- The expression that reads a member; places before the first count from the end. -/
def memberAccess? (members : List String) (owner : String) (index : Int) : Option String :=
  let place := if index < 0 then index + members.length else index
  if place < 0 then none else members[place.toNat]?.map fun name => owner ++ "." ++ name

/-- The expression that reads a member of an aggregate; the names of all its members are given
out. -/
def access (w : Writer) (g : Graph) (names? : Option Names) (h : Handle) (owner : String)
    (index : Int) : Except RenderFault String × Option Names :=
  match g.get h with
  | .aggregate _ =>
    match w.reserved g (names?.map Names.table) h, names? with
    | .error e, _ => (.error e, names?)
    | .ok _, none => (.error (.noTable false), none)
    | .ok reserved, some names =>
      let text? := memberAccess? (names.members g h reserved) owner index
      (text?.elim (.error .namelessMember) .ok, some (names.record g h reserved))
  | _ => (.error .shapeless, names?)

/-- Every writer: its name, what it writes and how it is made, in the order of names. -/
def available : List (String × String × (WriterOptions → Writer)) :=
  [("accessor", "UserType subclasses with typed read-only field properties", Accessor.writer),
   ("ctypes", "ctypes Structure/Union declarations with explicit padding", Ctypes.writer)]

/-- A name that no writer has. -/
structure Unknown where
  name : String
  deriving DecidableEq, Repr

/-- The message for an unknown name. -/
def Unknown.message (e : Unknown) : String :=
  "unknown writer " ++ Text.quoted e.name ++ " (available: " ++
    ", ".intercalate (available.map Prod.fst) ++ ")"

/-- The writer with this name. -/
def find (name : String) (options : WriterOptions) : Except Unknown Writer :=
  match available.lookup name with
  | some (_, make) => .ok (make options)
  | none => .error ⟨name⟩

end NativeTypes.Writer
