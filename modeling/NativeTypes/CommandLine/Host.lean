/-
NativeTypes.CommandLine.Host — the files that a command reads and writes.

A host is any place with files; the commands only know these four
operations. Directories are made with all that lead to them, and one that
is there already is no fault. No file has the character zero in its path,
and neither names nor paths are longer than a system allows.
-/
import NativeTypes.Path
import NativeTypes.Text.Utf8

namespace NativeTypes.CommandLine

/-- How an operation on a file fails. -/
inductive FileFaultKind
  | missing
  | alreadyThere
  | notDirectory
  | isDirectory
  /-- The path holds the character zero. -/
  | nullByte
  | tooLong
  | other (code : Nat) (words : String)
  deriving DecidableEq, Repr

namespace FileFaultKind

/-- The number of a kind of fault. -/
def code : FileFaultKind → Nat
  | missing => 2
  | alreadyThere => 17
  | notDirectory => 20
  | isDirectory => 21
  | nullByte => 22
  | tooLong => 36
  | other code _ => code

/-- The words for a kind of fault. -/
def words : FileFaultKind → String
  | missing => "No such file or directory"
  | alreadyThere => "File exists"
  | notDirectory => "Not a directory"
  | isDirectory => "Is a directory"
  | nullByte => "embedded null byte"
  | tooLong => "File name too long"
  | other _ words => words

end FileFaultKind

/-- An operation on a file that failed. -/
structure FileFault where
  kind : FileFaultKind
  path : Path
  deriving DecidableEq, Repr

/-- The message for a fault; a path that no file can have has only the words. -/
def FileFault.message (e : FileFault) : String :=
  if e.kind = .nullByte then e.kind.words
  else "[Errno " ++ toString e.kind.code ++ "] " ++ e.kind.words ++ ": " ++ Text.quoted e.path.text

/-- No file can have this path. -/
def isImpossible (p : Path) : Bool :=
  p.components.any fun name => name.toList.contains (Char.ofNat 0)

/-- The most octets that a name in a path may have. -/
def longestName : Nat := 255

/-- The most octets that a path may have. -/
def longestPath : Nat := 4095

/-- The operations on files, each an action in `m`. -/
structure Host (m : Type → Type) where
  read : Path → m (Except FileFault (List Nat))
  write : Path → String → m (Except FileFault Unit)
  makeDirectory : Path → m (Except FileFault Unit)
  isDirectory : Path → m Bool

namespace Host

variable {m : Type → Type} [Monad m] (host : Host m)

/-- What a fault comes to when a directory is to be there: none if it is. -/
def unlessDirectory (p : Path) (fault : FileFault) : m (Except FileFault Unit) := do
  if ← host.isDirectory p then return .ok () else return .error fault

/-- Makes the directory of the first `n` components, and before it the shorter ones if they
are missing. -/
def makeFirst (p : Path) : Nat → m (Except FileFault Unit)
  | 0 => do
    let top : Path := { p with components := [] }
    match ← host.makeDirectory top with
    | .ok _ => return .ok ()
    | .error fault => host.unlessDirectory top fault
  | n + 1 => do
    let here : Path := { p with components := p.components.take (n + 1) }
    match ← host.makeDirectory here with
    | .ok _ => return .ok ()
    | .error fault =>
      if fault.kind ≠ .missing then host.unlessDirectory here fault
      else
        match ← makeFirst p n with
        | .error fault => return .error fault
        | .ok _ =>
          match ← host.makeDirectory here with
          | .ok _ => return .ok ()
          | .error fault => host.unlessDirectory here fault

/-- Makes a directory and those that lead to it. -/
def makeDirectories (p : Path) : m (Except FileFault Unit) := host.makeFirst p p.components.length

end Host

/-- Carriage returns as line feeds, together with a line feed that follows. -/
def lineFeeds : List Char → List Char
  | [] => []
  | '\r' :: '\n' :: cs => '\n' :: lineFeeds cs
  | '\r' :: cs => '\n' :: lineFeeds cs
  | c :: cs => c :: lineFeeds cs

/-- Why a file gives no text. -/
inductive TextFault
  | file (fault : FileFault)
  | octets (fault : Text.Utf8.Fault)

/-- The text of a file. -/
def Host.readText {m : Type → Type} [Monad m] (host : Host m) (p : Path) :
    m (Except TextFault String) := do
  match ← host.read p with
  | .error fault => return .error (.file fault)
  | .ok octets =>
    match Text.Utf8.read octets with
    | .error fault => return .error (.octets fault)
    | .ok text => return .ok (String.ofList (lineFeeds text.toList))

end NativeTypes.CommandLine
