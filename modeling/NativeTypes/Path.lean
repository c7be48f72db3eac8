/-
NativeTypes.Path — file paths as text: normal form, joining, parent.

A path is a root and components. Empty components and `.` vanish, `..`
stays. The root is empty, one slash, or two slashes when the text starts
with exactly two.
-/
namespace NativeTypes

/-- A path in normal form. -/
structure Path where
  root : String
  components : List String
  deriving DecidableEq, Repr

namespace Path

/-- The components of a text: what stands between slashes, without `` and `.`. -/
def split (cs : List Char) : List String :=
  ((cs.splitOn '/').map String.ofList).filter fun part => part ≠ "" && part ≠ "."

/-- The root that a text starts with. -/
def rootOf (cs : List Char) : String :=
  match (cs.takeWhile (· == '/')).length with
  | 0 => ""
  | 2 => "//"
  | _ => "/"

/-- The path that a text spells. -/
def ofText (text : String) : Path := ⟨rootOf text.toList, split text.toList⟩

/-- The text of a path; the path without root and components is `.`. -/
def text (p : Path) : String :=
  if p.root = "" && p.components.isEmpty then "."
  else p.root ++ "/".intercalate p.components

/-- The path starts at a root. -/
def isAbsolute (p : Path) : Bool := p.root ≠ ""

/-- `q` seen from `p`: an absolute `q` stands for itself. -/
def join (p q : Path) : Path :=
  if q.isAbsolute then q else ⟨p.root, p.components ++ q.components⟩

/-- The path without its last component; a root is its own parent. -/
def parent (p : Path) : Path := { p with components := p.components.dropLast }

/-- Every path above `p` that has a component, the shortest first, and `p` itself. -/
def upTo (p : Path) : List Path :=
  (List.range p.components.length).map fun n => { p with components := p.components.take (n + 1) }

/-- A text seen from a base directory. Without a base, and when it is absolute, it stays as
it is written. -/
def resolve (base : Option Path) (text : String) : String :=
  match base with
  | none => text
  | some base => if (ofText text).isAbsolute then text else (base.join (ofText text)).text

end Path

end NativeTypes
