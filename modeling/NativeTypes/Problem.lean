/-
NativeTypes.Problem — problems by their kind and the facts about them.

Every kind of problem has facts that it needs and facts that it may have
besides. A fact may be any value, and values are kept as they are: only what
is told is text. A problem of one type also makes a diagnostic.

* `Problem.build` — the problem of a kind with these facts.
* `Problem.report` — what is told about a problem.
* `Problem.diagnostic?` — the parts of its diagnostic.
-/
import NativeTypes.Diagnostic
import NativeTypes.Export.Run
import NativeTypes.Text.Literal
import NativeTypes.TypeName.Parser

namespace NativeTypes

open NativeTypes.Text

/-- A problem, in values of any kind. -/
structure Problem where
  message : Literal
  details : List (String × Literal) := []
  /-- The problem of one type, with the type and its module. -/
  type : Option (TypeProblem × Literal × Literal) := none

namespace Problem

/-- Named facts. -/
abbrev Facts := List (String × Literal)

/-- The kinds of problems. -/
inductive Kind
  /-- A message with any details. -/
  | plain
  /-- One type, and nothing more is known. -/
  | type
  | unresolvable
  | layout
  | valueCycle
  /-- The name of a type is not well formed. -/
  | name
  /-- Identifiers ran out. -/
  | identifiers
  | query
  | run
  | cancelled
  deriving DecidableEq, Repr

/-- The facts that a kind needs. -/
def Kind.needed : Kind → List String
  | plain | type | unresolvable | layout | query | run => ["message"]
  | valueCycle => ["cycle"]
  | name => ["text"]
  | identifiers => ["identifier", "key"]
  | cancelled => []

/-- The facts that a kind may have besides. -/
def Kind.allowed : Kind → List String
  | plain => ["details"]
  | type | unresolvable | layout => ["type_name", "module"]
  | valueCycle | cancelled => ["module"]
  | name => ["reason"]
  | identifiers => []
  | query => ["module", "query"]
  | run => ["module", "root", "last_query", "cause"]

/-- The facts are those of the kind. -/
def Kind.fits (k : Kind) (facts : Facts) : Bool :=
  k.needed.all (fun name => facts.any fun f => f.1 = name) &&
    facts.all fun f => k.needed.contains f.1 || k.allowed.contains f.1

/-- Why facts make no problem that can be told. -/
inductive Fault
  /-- They are not the facts of the kind. -/
  | unfit
  /-- A path is a value of a kind that is not made of steps. -/
  | notIterable (kindWord : String)
  /-- Details are not a table. -/
  | notTable
  /-- A message without details is no text. -/
  | notText
  deriving DecidableEq, Repr

/-- The words for a fault, if it has any. -/
def Fault.message? : Fault → Option String
  | notIterable kindWord => some ("'" ++ kindWord ++ "' object is not iterable")
  | _ => none

section
variable (facts : Facts)

/-- The value of a fact, or what stands for one that is not there. -/
def value (name : String) (absent : Literal := .text "") : Literal :=
  (facts.lookup name).getD absent

/-- A detail that is left out when it holds nothing. -/
def detail (name : String) (value : Literal) : Facts := if value.holds then [(name, value)] else []

/-- A fact as a detail that is left out when there is none. -/
def detail? (name fact : String) : Facts :=
  match value facts fact .nothing with
  | .nothing => []
  | x => [(name, x)]

/-- The problem of one type. -/
def ofType (p : TypeProblem) (message subject : Literal) : Problem :=
  let module := value facts "module"
  { message, details := detail "type" subject ++ detail "module" module
    type := some (p, subject, module) }

/-- The path of a cycle. -/
def path : Except Fault (List String) :=
  let cycle := value facts "cycle"
  match cycle.items? with
  | some steps => .ok (steps.map Literal.alone)
  | none => .error (.notIterable cycle.kindWord)

/-- The details that a fact gives. -/
def detailsOf (details : Literal) : Except Fault Facts :=
  match details with
  | .table entries => .ok entries
  | x => if x.holds then .error .notTable else .ok []

/-- The problem of a kind. -/
def make (kind : Kind) : Except Fault Problem :=
  let message := value facts "message"
  let module := value facts "module"
  let subject := value facts "type_name"
  match kind with
  | .plain => (detailsOf (value facts "details")).map fun details => { message, details }
  | .type => .ok (ofType facts (.general message.alone) message subject)
  | .unresolvable => .ok (ofType facts (.unresolvable message.alone) message subject)
  | .layout => .ok (ofType facts (.invalidLayout message.alone) message subject)
  | .valueCycle => (path facts).map fun path =>
    let p := TypeProblem.valueCycle path
    ofType facts p (.text p.message) (.text (path.headD ""))
  | .name =>
    let reason := value facts "reason"
    let complaint := NameSyntaxError.complaint (value facts "text").shown
    .ok { message := .text (if reason.holds then complaint ++ ": " ++ reason.alone else complaint) }
  | .identifiers =>
    let fault := Naming.AllocationFault.exhausted "" (value facts "key").alone
    .ok { message := .text fault.report.message
          details := [("candidate", value facts "identifier")] }
  | .query =>
    .ok { message, details := detail "module" module ++ detail? facts "query" "query" }
  | .run =>
    .ok { message
          details := ("module", module) :: detail? facts "root" "root" ++
            detail? facts "last_successful_query" "last_query" }
  | .cancelled =>
    .ok { message := .text (Export.cancelledReport "").message, details := detail "module" module }

end

/-- The problem can be told: its message is a text or comes with details. -/
def isTold (p : Problem) : Bool :=
  !p.details.isEmpty || match p.message with
    | .text _ => true
    | _ => false

/-- The problem of a kind with these facts. -/
def build (kind : Kind) (facts : Facts) : Except Fault Problem := do
  if !kind.fits facts then throw .unfit
  let p ← make facts kind
  if p.isTold then return p else throw .notText

/-- What is told about a problem. -/
def report (p : Problem) : Report :=
  ⟨p.message.alone, p.details.map fun d => (d.1, d.2.alone)⟩

/-- The parts, in the order of `Diagnostic.members`, of the diagnostic for a problem of one type,
in its own module unless another one is named. -/
def diagnostic? (p : Problem) (module : Literal) : Option (List Literal) :=
  p.type.map fun (problem, subject, own) =>
    [.text problem.kind.word, .text problem.severity.word, if module.holds then module else own,
     subject, p.message]

end Problem

end NativeTypes
