/-
NativeTypes.CommandLine.Run — the commands at work.

`generate` writes one file for each module, or prints the sources;
`resolve` prints the types that a module's roots lead to; `writers` lists
the writers. Diagnostics are reported at the end, and an error among them
makes the exit code 1.

* `generateCode`, `listTypes`, `writerLines` — the three commands.
* `run` — the outcome of arguments on a host.
-/
import NativeTypes.CommandLine.Input

namespace NativeTypes.CommandLine

/-! ## 1. Diagnostics -/

/-- How many of the diagnostics are errors. -/
def errorCount (ds : List Diagnostic) : Nat := (ds.filter Diagnostic.isError).length

/-- Diagnostics in a form. -/
def Format.render (f : Format) (ds : List Diagnostic) : String :=
  let line := match f with
    | json => Diagnostic.json
    | _ => Diagnostic.text
  let total :=
    if f = summary && !ds.isEmpty then
      "\n--- " ++ toString ds.length ++ " diagnostic(s), " ++ toString (errorCount ds) ++
        " error(s) ---\n"
    else ""
  String.join (ds.map fun d => line d ++ "\n") ++ total

/-- The outcome of a command that went through with these diagnostics. -/
def finished (f : Format) (ds : List Diagnostic) (out : String) (log : List (Level × String)) :
    Outcome :=
  { exit := if errorCount ds = 0 then 0 else 1, out, err := f.render ds, log }

/-! ## 2. Listing types -/

/-- A registered type as a line, if its size can be written. -/
def typeLine? (module : String) (g : Graph) (r : Registry Key) (key : Key) (h : Handle) :
    Option String :=
  if !(g.byteSize h).all Text.isWritable then none
  else some <| "  " ++ key.text module ++ "  " ++ (g.get h).kindWord ++ "  size=" ++
    ((g.byteSize h).map toString).getD "?" ++
    (match r.invalid.get? h with
      | some reason => "  invalid: " ++ reason
      | none => "") ++ "\n"

/-- The lines about a module that was resolved; behind the first one none, if the keys cannot be
listed. -/
def moduleLines {σ : Type} (module : String) (s : Resolver.State σ) : List (Option String) :=
  some ("module " ++ module ++ " (" ++ toString s.registry.size ++ " types)\n") ::
    match s.registry.items? (Key.text? module) with
    | some items => items.map fun (key, h) => typeLine? module s.graph s.registry key h
    | none => [none]

/-- What is printed of lines: those before the first that is missing. -/
def printed (lines : List (Option String)) : String :=
  String.join ((lines.takeWhile Option.isSome).filterMap id)

/-- A module resolved from the roots of a wish. What is missing ends the work when it is the turn
of a root that cannot be asked for. -/
def resolveModule (input : Input) (session : Found) (wish : Wish) :
    Except Failure (Resolver.State Found) := do
  let request := wish.request
  let task : Resolver.Task Found := ⟨wish.source input, request.module⟩
  if !wish.isWhole then
    match Resolver.declareRoots task .usual request.roots (.start session) with
    | .ok .. => throw (.lacking .key)
    | .error stop _ => throw (.stopped request.module stop)
  let roots ←
    if request.roots.isEmpty then
      match task.source.typeNames session request.module with
      | .ok names => pure (names.map Ref.name)
      | .error fault => throw (.listing fault)
    else pure request.roots
  match Resolver.resolveAll task .usual roots (.start session) with
  | .ok _ s => return s
  | .error stop _ => throw (.stopped request.module stop)

/-- The types of modules one after the other; after a failure only what was printed. -/
def resolveModules (input : Input) (session : Found) (format : Format) (out : String)
    (ds : List Diagnostic) : List Wish → Outcome
  | [] => finished format ds out []
  | wish :: rest =>
    match resolveModule input session wish with
    | .error failure => { failure.outcome with out }
    | .ok s =>
      let lines := moduleLines wish.request.module s
      let out := out ++ printed lines
      if lines.all Option.isSome then
        resolveModules input s.session format out (ds ++ s.diagnostics) rest
      else { Failure.tooManyDigits.outcome with out }

/-! ## 3. Generating code -/

/-- How the export of a wish fails that is not whole: at a root before the missing one, or at
what is missing. -/
def lackingFailure (input : Input) (settings : Export.Settings) (found : Found) (w : Wish) :
    Failure :=
  if w.firstRoots.isEmpty then .lacking .key
  else
    match Export.run (w.source input) settings [w.request] found with
    | .error (.resolving _ root last fault) _ =>
      .exporting (.resolving (w.module.getD "[]") root last fault)
    | .error failure _ => .exporting failure
    | .ok .. => .lacking .key

/-- The outputs of the modules that are wished for. -/
def outputsOf (input : Input) (writer : Writer) (wishes : List Wish) :
    Except Failure (List ModuleOutput) :=
  let settings : Export.Settings :=
    { writer, truncateNamespace := input.config.truncateNamespace }
  let requests := (wishes.takeWhile Wish.isWhole).map Wish.request
  match Export.run input.source settings requests input.found with
  | .error failure _ => .error (.exporting failure)
  | .ok outputs found =>
    match wishes.dropWhile Wish.isWhole with
    | [] => .ok outputs
    | w :: _ => .error (lackingFailure input settings found w)

variable {m : Type → Type} [Monad m] (host : Host m)

/-- Writes each output to its file in a directory that is there. -/
def writeOutputs (folder : Path) : List ModuleOutput → ExceptT Failure m (List Path)
  | [] => pure []
  | output :: rest => do
    let path := folder.join (Path.ofText output.filename)
    match ← host.write path output.source with
    | .error fault => throw (.unwritable fault)
    | .ok _ => return path :: (← writeOutputs folder rest)

/-- Puts outputs where they belong: what is printed, and what is told. -/
def deliver (target : String) (outputs : List ModuleOutput) :
    ExceptT Failure m (String × List (Level × String)) := do
  if target = "-" then return (String.join (outputs.map ModuleOutput.source), [])
  let folder := Path.ofText target
  match ← host.makeDirectories folder with
  | .error fault => throw (.unwritable fault)
  | .ok _ =>
    let paths ← writeOutputs host folder outputs
    return ("", paths.map fun path => (.info, "wrote " ++ path.text))

/-- Generates code. -/
def generateCode (o : Options) : ExceptT Failure m Outcome := do
  let config ← configOf host o
  let options : WriterOptions :=
    { truncateNamespace := config.truncateNamespace, runtimeModule := config.runtimeModule }
  if o.lacksWriter then throw (.lacking .key)
  let writer ← ExceptT.mk (pure ((Writer.find config.writer options).mapError Failure.writer))
  let input ← readInput host config o
  let outputs ← ExceptT.mk (pure (outputsOf input writer (wishesOf input o)))
  if o.lacksTarget then throw (.lacking .path)
  let (out, log) ← deliver host config.outputDir outputs
  return finished o.format (outputs.flatMap ModuleOutput.diagnostics) out log

/-- Lists types. -/
def listTypes (o : Options) : ExceptT Failure m Outcome := do
  let config ← configOf host o
  let input ← readInput host config o
  return resolveModules input input.found o.format "" [] (wishesOf input o)

/-! ## 4. The program -/

/-- The name and the version of the program. -/
def versionLine : String := "dbgcodegen 0.1.0\n"

/-- How the program is used. -/
def usage : String :=
  "usage: dbgcodegen [-h] [--version] [-v] generate|resolve|writers ...\n"

/-- The writers, each with what it writes. -/
def writerLines : String :=
  String.join (Writer.available.map fun (name, what, _) =>
    String.ofList (name.toList.rightpad 12 ' ') ++ " " ++ what ++ "\n")

/-- The outcome of arguments that were not read to their end. -/
def Halt.outcome : Halt → Outcome
  | page .help => { out := usage }
  | page .version => { out := versionLine }
  | misuse _ => { exit := 2, err := usage }

/-- A command at work. -/
def Command.run (command : Command) (o : Options) : m Outcome := do
  let done : ExceptT Failure m Outcome := match command with
    | .generate => generateCode host o
    | .resolve => listTypes host o
    | .writers => pure { out := writerLines }
  match ← done.run with
  | .ok outcome => return outcome
  | .error failure => return failure.outcome

/-- The outcome of arguments on a host. -/
def run (arguments : List String) : m Outcome := do
  match Invocation.read arguments with
  | .error halt => return halt.outcome
  | .ok { command := none, .. } => return { exit := 2, err := usage }
  | .ok { verbosity, command := some (command, o) } =>
    return (← command.run host o).told verbosity

end NativeTypes.CommandLine
