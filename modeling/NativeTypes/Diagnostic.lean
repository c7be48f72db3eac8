/-
NativeTypes.Diagnostic — what is told about failures and about problems
with single types.

A failure ends what is being done; its report is a message with details,
which follow the message in parentheses. A problem with a single type is
recorded while the others go on: its diagnostic says what kind of problem a
subject has, how severe it is and in which module. `TypeProblem` is what can
be wrong with one type; it knows its own diagnostic and its own report.
-/
import NativeTypes.Text.Quoted

namespace NativeTypes

/-- A message with named details. -/
structure Report where
  message : String
  details : List (String × String) := []
  deriving DecidableEq, Repr

namespace Report

/-- The message with its details. -/
def text (r : Report) : String :=
  if r.details.isEmpty then r.message
  else r.message ++ " (" ++ ", ".intercalate (r.details.map fun d => d.1 ++ "=" ++ d.2) ++ ")"

/-- A detail that is left out when its text is empty. -/
def detail (name text : String) : List (String × String) :=
  if text.isEmpty then [] else [(name, text)]

/-- A detail that is left out when there is none. -/
def detail? (name : String) : Option String → List (String × String)
  | none => []
  | some text => [(name, text)]

end Report

/-- How severe a diagnostic is. -/
inductive Severity
  | info
  | warning
  | error
  deriving DecidableEq, Repr

namespace Severity

/-- The word for a severity. -/
def word : Severity → String
  | info => "info"
  | warning => "warning"
  | error => "error"

/-- The severity that a word stands for. -/
def ofWord? (w : String) : Option Severity :=
  [info, warning, error].find? fun s => s.word = w

/-- The place in the order from mild to severe. -/
def rank : Severity → Nat
  | info => 0
  | warning => 1
  | error => 2

end Severity

/-- The kinds of problems. -/
inductive DiagnosticKind
  | unresolvable
  | valueCycle
  | invalidLayout
  | invalidDependency
  | duplicateMember
  | renderFailure
  deriving DecidableEq, Repr

namespace DiagnosticKind

/-- The word for a kind. -/
def word : DiagnosticKind → String
  | unresolvable => "unresolvable"
  | valueCycle => "illegal-value-cycle"
  | invalidLayout => "invalid-layout"
  | invalidDependency => "invalid-dependency"
  | duplicateMember => "duplicate-member"
  | renderFailure => "render-failure"

/-- The kind that a word stands for. -/
def ofWord? (w : String) : Option DiagnosticKind :=
  [unresolvable, valueCycle, invalidLayout, invalidDependency, duplicateMember,
    renderFailure].find? fun k => k.word = w

end DiagnosticKind

/-- One problem with one type. -/
structure Diagnostic where
  kind : DiagnosticKind
  severity : Severity
  module : String
  subject : String
  message : String
  deriving DecidableEq, Repr

namespace Diagnostic

/-- A diagnostic as a line of text. -/
def text (d : Diagnostic) : String :=
  d.module ++ ": " ++ d.severity.word ++ ": [" ++ d.kind.word ++ "] " ++ d.subject ++ ": " ++
    d.message

/-- The parts of a diagnostic by name. -/
def members (d : Diagnostic) : List (String × String) :=
  [("kind", d.kind.word), ("severity", d.severity.word), ("module", d.module),
   ("subject", d.subject), ("message", d.message)]

/-- The diagnostic whose parts, in the order of `members`, are these texts. -/
def ofParts? : List String → Option Diagnostic
  | [kind, severity, module, subject, message] => do
    return ⟨← DiagnosticKind.ofWord? kind, ← Severity.ofWord? severity, module, subject, message⟩
  | _ => none

/-- A diagnostic as a JSON object on one line. -/
def json (d : Diagnostic) : String := Text.Json.textObject d.members

/-- The diagnostic is an error. -/
def isError (d : Diagnostic) : Bool := d.severity = .error

/-- From severe to mild; equals keep their order. -/
def worstFirst (ds : List Diagnostic) : List Diagnostic :=
  ds.mergeSort fun a b => b.severity.rank ≤ a.severity.rank

end Diagnostic

/-! ## Problems of one type -/

/-- What can be wrong with one type. -/
inductive TypeProblem
  /-- A problem of no particular kind. -/
  | general (message : String)
  /-- The source cannot describe the type. -/
  | unresolvable (message : String)
  /-- The type contains itself by value along this path of keys, entered at the first. -/
  | valueCycle (path : List String)
  /-- A part does not fit the type. -/
  | invalidLayout (message : String)
  deriving DecidableEq, Repr

namespace TypeProblem

/-- The message for a problem. -/
def message : TypeProblem → String
  | general message | unresolvable message | invalidLayout message => message
  | valueCycle path =>
    "type contains itself by value: " ++ " -> ".intercalate (path ++ path.take 1)

/-- The kind of diagnostic a problem becomes. -/
def kind : TypeProblem → DiagnosticKind
  | general _ | unresolvable _ => .unresolvable
  | valueCycle _ => .valueCycle
  | invalidLayout _ => .invalidLayout

/-- An undescribed type is a warning; all else is an error. -/
def severity : TypeProblem → Severity
  | unresolvable _ => .warning
  | _ => .error

/-- The diagnostic for a problem of `subject` in `module`. -/
def diagnostic (p : TypeProblem) (subject module : String) : Diagnostic :=
  ⟨p.kind, p.severity, module, subject, p.message⟩

/-- The report of a problem of `subject` in `module`. -/
def report (p : TypeProblem) (subject module : String) : Report :=
  ⟨p.message, Report.detail "type" subject ++ Report.detail "module" module⟩

end TypeProblem

end NativeTypes
