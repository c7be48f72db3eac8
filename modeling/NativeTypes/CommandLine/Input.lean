/-
NativeTypes.CommandLine.Input — what a command reads before it starts.

The configuration comes from a file or is the usual one; options replace
its settings and add to its snapshots. All snapshots are loaded into one
catalog. Each module of it, and each module that has an executable, is
routed to where its types are found; no module has two places. Executables
are opened and looked at, but their debug information is not read here, so
each answers with a fault.
-/
import NativeTypes.CommandLine.Options
import NativeTypes.CommandLine.Outcome
import NativeTypes.Dwarf.Image

namespace NativeTypes.CommandLine

/-- Where the types of a module are found. -/
inductive Origin
  | snapshots
  | images
  deriving DecidableEq, Repr

/-- Everything that types are read from. -/
structure Input where
  config : Config
  router : Router Origin
  catalog : Catalog
  images : Dwarf.Images

/-- The state of the catalog and the images, as look-ups change it. -/
abbrev Found := Catalog × Dwarf.Images

/-- The source of each origin. -/
def Origin.source : Origin → Source Found
  | snapshots => Catalog.source.within Prod.fst fun found c => (c, found.2)
  | images => Dwarf.Images.source.within Prod.snd fun found i => (found.1, i)

/-- All modules as one source. -/
def Input.source (input : Input) : Source Found := input.router.source Origin.source

/-- The state that a run starts with. -/
def Input.found (input : Input) : Found := (input.catalog, input.images)

variable {m : Type → Type} [Monad m] (host : Host m)

/-! ## 1. Configuration -/

/-- The configuration that a file gives. -/
def readConfig (file : String) : ExceptT Failure m Config := do
  let path := Path.ofText file
  match ← host.readText path with
  | .error fault => throw (.ofText "configuration" fault)
  | .ok text => ExceptT.mk (pure ((Config.read (some path.parent) text).mapError .configuration))

/-- The configuration with the options applied, if it is valid. Its snapshots are those of the
file. -/
def configOf (o : Options) : ExceptT Failure m Config := do
  let base ← match o.config with
    | some file => if file.isEmpty then pure {} else readConfig host file
    | none => pure {}
  let config := base.merged o.settings
  if o.lacksJobs then throw (.lacking .number)
  match config.validate with
  | .ok _ => return config
  | .error fault => throw (.configuration fault)

/-! ## 2. Snapshots and executables -/

/-- The catalog with the snapshots of files. -/
def loadSnapshots (catalog : Catalog) : List (Option String) → ExceptT Failure m Catalog
  | [] => pure catalog
  | none :: _ => throw (.lacking .path)
  | some file :: files => do
    match ← host.readText (Path.ofText file) with
    | .error fault => throw (.ofText "snapshot" fault)
    | .ok text =>
      match Snapshot.load text catalog with
      | .error fault _ => throw (.snapshot fault)
      | .ok _ catalog => loadSnapshots catalog files

/-- A module and the path of its executable, out of an argument. -/
def imageOf (argument : Option String) : Except Failure (String × String) := do
  let some argument := argument | throw (.lacking .text)
  match splitEquals argument.toList with
  | some (module, path) =>
    if module.isEmpty || path.isEmpty then .error (.imageArgument argument)
    else .ok (String.ofList module, String.ofList path)
  | none => .error (.imageArgument argument)

/-- The executables of modules; arguments replace what the configuration says. -/
def imagePaths (config : Config) (arguments : List (Option String)) :
    Except Failure (Assoc String String) := do
  let given ← arguments.mapM imageOf
  let configured := config.modules.filterMap fun spec =>
    (spec.elf.filter fun path => !path.isEmpty).map fun path => (spec.name, path)
  return (configured ++ given).foldl (fun paths (module, path) => paths.put module path) []

/-- What an executable begins with. -/
def executableMagic : List Nat := [0x7F, 0x45, 0x4C, 0x46]

/-- What an executable answers. -/
def openImage (module : String) (path : Path) : m SourceFault := do
  return match ← host.read path with
    | .error fault =>
      if fault.kind = .nullByte then .broken fault.message
      else .query { cause := .cannotOpen path.text fault.message, module }
    | .ok octets =>
      if octets.take 4 = executableMagic then
        .query { cause := .noDebugInformation path.text, module }
      else .query { cause := .cannotRead path.text "Magic number does not match", module }

/-- The executables of modules, opened. -/
def openImages : Assoc String String → m (Assoc String (Except SourceFault Dwarf.Image))
  | [] => pure []
  | (module, path) :: rest => do
    let fault ← openImage host module (Path.ofText path)
    return (module, .error fault) :: (← openImages rest)

/-! ## 3. Routes -/

/-- The router with modules bound to an origin. -/
def routeAll (router : Router Origin) (origin : Origin) :
    List String → Except Failure (Router Origin)
  | [] => .ok router
  | module :: rest => do
    routeAll (← (router.add module origin).mapError .route) origin rest

/-- All that is read for a configuration. -/
def readInput (config : Config) (o : Options) : ExceptT Failure m Input := do
  let catalog ← loadSnapshots host {} (config.snapshots.map some ++ o.snapshots)
  let paths ← ExceptT.mk (pure (imagePaths config o.images))
  let images : Dwarf.Images := { images := ← monadLift (openImages host paths) }
  let router ← ExceptT.mk (pure do
    routeAll (← routeAll {} .snapshots catalog.modules) .images images.modules)
  if router.modules.isEmpty then throw .noInput
  return { config, router, catalog, images }

/-- A request as it is asked for: the module or one of the roots may be missing. -/
structure Wish where
  module : Option String
  roots : List (Option String)
  deriving DecidableEq, Repr

namespace Wish

/-- Nothing is missing. -/
def isWhole (w : Wish) : Bool := w.module.isSome && w.roots.all Option.isSome

/-- A root can be asked for: it is there, and it is well formed or has a module that it can be
recorded in. -/
def canAsk (w : Wish) (root : Option String) : Bool :=
  root.any fun name => w.module.isSome || (TypeName.parse? name).isSome

/-- The roots before the first one that cannot be asked for. -/
def firstRoots (w : Wish) : List Ref := ((w.roots.takeWhile w.canAsk).filterMap id).map .name

/-- The request of a wish that is whole. -/
def request (w : Wish) : ModuleRequest := ⟨w.module.getD "", w.firstRoots⟩

end Wish

/-- The modules that are asked for, or those of the configuration, or all. -/
def modulesOf (input : Input) (o : Options) : List (Option String) :=
  if !o.modules.isEmpty then o.modules
  else if !input.config.modules.isEmpty then
    input.config.modules.map fun spec => some spec.name
  else input.router.modules.map some

/-- What is asked for, each module with the roots of the options or of the configuration. -/
def wishesOf (input : Input) (o : Options) : List Wish :=
  (modulesOf input o).map fun module =>
    let roots :=
      if !o.roots.isEmpty then o.roots
      else (((module.bind input.config.module?).map ModuleSpec.roots).getD []).map some
    ⟨module, roots⟩

/-- A source that cannot be asked about a module that is missing. -/
def lackingSource : Source Found where
  lookup found _ _ := (.error (.broken Lack.key.message), found)
  typeNames _ _ := .error (.broken Lack.key.message)
  pointerSize _ _ := .error (.broken Lack.key.message)

/-- The source that answers for a wish. -/
def Wish.source (w : Wish) (input : Input) : Source Found :=
  if w.module.isSome then input.source else lackingSource

end NativeTypes.CommandLine
