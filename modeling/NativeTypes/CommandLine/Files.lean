/-
NativeTypes.CommandLine.Files — files in memory.

A place is the list of names that lead to a file or a directory: from the
working directory, from above it (names `..` in front), or from the root
(`/` in front). Places above the working directory and the root are
directories. Each name of a path but the last must lead to a directory; the
name `..` leads back from it.
-/
import NativeTypes.Assoc
import NativeTypes.CommandLine.Host

namespace NativeTypes.CommandLine

/-- What is at a place. -/
inductive Node
  | directory
  | file (octets : List Nat)
  deriving DecidableEq, Repr

/-- The names that lead to something. -/
abbrev Place := List String

/-- What there is at which place. -/
abbrev Files := Assoc Place Node

namespace Files

/-- The place above one. -/
def above (place : Place) : Place :=
  if place = ["/"] then place
  else if place.all (· = "..") then place ++ [".."]
  else place.dropLast

/-- What is at a place. -/
def at? (files : Files) (place : Place) : Option Node :=
  if place = ["/"] || place.all (· = "..") then some .directory else files.get? place

/-- The place that a name in a directory stands for. -/
def child (folder : Place) (name : String) : Place :=
  if name = ".." then above folder else folder ++ [name]

/-- The place that a name in a directory stands for, if a name may be so long. -/
def step (folder : Place) (name : String) : Except FileFaultKind Place :=
  if longestName < name.utf8ByteSize then .error .tooLong else .ok (child folder name)

/-- Goes into a directory. -/
def enter (files : Files) (folder : Place) (name : String) : Except FileFaultKind Place := do
  let place ← step folder name
  match files.at? place with
  | some .directory => return place
  | some (.file _) => throw .notDirectory
  | none => throw .missing

/-- The place that a path starts from. -/
def origin (p : Path) : Place := if p.isAbsolute then ["/"] else []

/-- The place of a path; what leads to it must be there. -/
def place (files : Files) (p : Path) : Except FileFaultKind Place := do
  if isImpossible p then throw .nullByte
  if longestPath < p.text.utf8ByteSize then throw .tooLong
  let folder ← p.components.dropLast.foldlM (enter files) (origin p)
  match p.components.getLast? with
  | none => return folder
  | some name => step folder name

/-- What a path leads to. -/
def find (files : Files) (p : Path) : Except FileFaultKind Node := do
  match files.at? (← files.place p) with
  | some node => return node
  | none => throw .missing

/-- The octets of a file. -/
def read (files : Files) (p : Path) : Except FileFaultKind (List Nat) := do
  match ← files.find p with
  | .file octets => return octets
  | .directory => throw .isDirectory

/-- The files with a new directory. -/
def makeDirectory (files : Files) (p : Path) : Except FileFaultKind Files := do
  let place ← files.place p
  match files.at? place with
  | some _ => throw .alreadyThere
  | none => return files.put place .directory

/-- The files with a file that is new or replaced. -/
def write (files : Files) (p : Path) (octets : List Nat) : Except FileFaultKind Files := do
  let place ← files.place p
  match files.at? place with
  | some .directory => throw .isDirectory
  | _ => return files.put place (.file octets)

/-- A path leads to a directory. -/
def isDirectory (files : Files) (p : Path) : Bool :=
  match files.find p with
  | .ok .directory => true
  | _ => false

/-- The files with one more, whatever directories it needs. -/
def addFile (files : Files) (name : String) (octets : List Nat) : Files :=
  let p := Path.ofText name
  let above := p.upTo.dropLast.foldl (fun (files : Files) folder =>
    files.put folder.components .directory) files
  above.put p.components (.file octets)

/-- A changed state, or the state as it is and the fault. -/
def apply (p : Path) (change : Files → Except FileFaultKind Files) :
    StateM Files (Except FileFault Unit) := do
  match change (← get) with
  | .ok files =>
    set files
    return .ok ()
  | .error kind => return .error ⟨kind, p⟩

/-- Files in memory as a host. -/
def host : Host (StateM Files) where
  read p := do return ((← get).read p).mapError fun kind => ⟨kind, p⟩
  write p text := apply p fun files => files.write p (Text.Utf8.encode text)
  makeDirectory p := apply p fun files => files.makeDirectory p
  isDirectory p := do return (← get).isDirectory p

end Files

end NativeTypes.CommandLine
