/-
NativeTypes.Config — what a run is configured with.

    (config
      (writer accessor)                    ; accessor | ctypes
      (output-dir "generated")
      (truncate-namespace yes)             ; yes | no
      (runtime-module "dbgscript.runtime")
      (max-workers 4)
      (snapshot "types.sexp")              ; repeatable
      (module "app"
        (elf "build/app")
        (roots "Node" "ns::Registry")))

Relative paths are seen from the directory of the configuration file. A
configuration that was read is valid: at least one worker, no module twice,
a runtime module.
-/
import NativeTypes.Diagnostic
import NativeTypes.Path
import NativeTypes.Sexp.Form

namespace NativeTypes

/-- A module to export; without roots every type it lists is one. -/
structure ModuleSpec where
  name : String
  roots : List String := []
  elf : Option String := none
  deriving DecidableEq, Repr

/-- The settings of a run. -/
structure Config where
  writer : String := "accessor"
  outputDir : String := "generated"
  truncateNamespace : Bool := true
  runtimeModule : String := "dbgscript.runtime"
  maxWorkers : Int := 1
  modules : List ModuleSpec := []
  snapshots : List String := []
  deriving DecidableEq, Repr

/-- What is wrong with a configuration. -/
inductive ConfigError
  | form (fault : FormError)
  | notSingle
  | arity (tag : String)
  | notBool (what : String) (found : Sexp)
  | unnamedModule
  | unknownModuleOption (module tag : String)
  | unknownOption (tag : String)
  | tooFewWorkers (workers : Int)
  | moduleTwice (name : String)
  | noRuntimeModule

/-- The report of a fault. -/
def ConfigError.report : ConfigError → Report
  | form fault => ⟨fault.message, []⟩
  | notSingle => ⟨"configuration must be a single (config ...) form", []⟩
  | arity tag => ⟨"(" ++ tag ++ " VALUE) takes exactly one value", []⟩
  | notBool what found => ⟨what ++ ": expected yes/no, got " ++ found.shown, []⟩
  | unnamedModule => ⟨"(module NAME ...) needs a name", []⟩
  | unknownModuleOption module tag =>
    ⟨"module " ++ module ++ ": unknown option (" ++ tag ++ " ...)", []⟩
  | unknownOption tag => ⟨"unknown configuration option (" ++ tag ++ " ...)", []⟩
  | tooFewWorkers workers =>
    ⟨"max-workers must be at least 1", [("max_workers", toString workers)]⟩
  | moduleTwice name => ⟨"module " ++ Text.quoted name ++ " configured twice", []⟩
  | noRuntimeModule => ⟨"runtime-module must not be empty", []⟩

namespace Config

open Sexp

/-- Settings that replace others where they are given. -/
structure Overrides where
  writer : Option String := none
  outputDir : Option String := none
  truncateNamespace : Option Bool := none
  runtimeModule : Option String := none
  maxWorkers : Option Int := none
  modules : Option (List ModuleSpec) := none
  snapshots : Option (List String) := none

/-- The settings with the overrides applied. -/
def merged (c : Config) (o : Overrides) : Config where
  writer := o.writer.getD c.writer
  outputDir := o.outputDir.getD c.outputDir
  truncateNamespace := o.truncateNamespace.getD c.truncateNamespace
  runtimeModule := o.runtimeModule.getD c.runtimeModule
  maxWorkers := o.maxWorkers.getD c.maxWorkers
  modules := o.modules.getD c.modules
  snapshots := o.snapshots.getD c.snapshots

/-- The settings of a module. -/
def module? (c : Config) (name : String) : Option ModuleSpec :=
  c.modules.find? fun spec => spec.name = name

/-- The first name that occurs again later in the list. -/
def firstRepeated (seen : List String) : List String → Option String
  | [] => none
  | n :: ns => if seen.contains n then some n else firstRepeated (n :: seen) ns

/-- The settings, if they are valid. -/
def validate (c : Config) : Except ConfigError Unit :=
  if c.maxWorkers < 1 then .error (.tooFewWorkers c.maxWorkers)
  else
    match firstRepeated [] (c.modules.map ModuleSpec.name) with
    | some name => .error (.moduleTwice name)
    | none => if c.runtimeModule.isEmpty then .error .noRuntimeModule else .ok ()

/-! ## Reading -/

/-- A reading of plain forms. -/
def ofForm {α : Type} (r : Except FormError α) : Except ConfigError α := r.mapError .form

/-- The single value of a form. -/
def single (tag : String) : List Sexp → Except ConfigError Sexp
  | [x] => .ok x
  | _ => .error (.arity tag)

/-- The single value of a form as text. -/
def singleText (tag what : String) (items : List Sexp) : Except ConfigError String := do
  ofForm ((← single tag items).asText what)

/-- The truth value of a word, in any case of letters. -/
def truthOfWord (word : String) : Option Bool :=
  let lower := String.ofList (word.toList.map Char.toLower)
  if ["yes", "true", "on"].contains lower then some true
  else if ["no", "false", "off"].contains lower then some false
  else none

/-- A truth value. -/
def asBool (what : String) (x : Sexp) : Except ConfigError Bool :=
  let found := match x with
    | .truth => some true
    | .symbol word | .text word => truthOfWord word
    | _ => none
  match found with
  | some b => .ok b
  | none => .error (.notBool what x)

/-- The options of a module. -/
def moduleOptions (base : Option Path) (spec : ModuleSpec) :
    List Sexp → Except ConfigError ModuleSpec
  | [] => .ok spec
  | x :: xs => do
    let (tag, items) ← ofForm x.form
    if tag = "elf" then
      let path ← singleText tag "elf path" items
      moduleOptions base { spec with elf := some (Path.resolve base path) } xs
    else if tag = "roots" then
      let roots ← items.mapM fun r => ofForm (r.asText "root type")
      moduleOptions base { spec with roots := spec.roots ++ roots } xs
    else .error (.unknownModuleOption spec.name tag)

/-- The items of a module form. -/
def readModule (base : Option Path) : List Sexp → Except ConfigError ModuleSpec
  | [] => .error .unnamedModule
  | name :: options => do
    let name ← ofForm (name.asText "module name")
    moduleOptions base { name } options

/-- One option, applied to the settings. -/
def applyOption (base : Option Path) (c : Config) (tag : String) (items : List Sexp) :
    Except ConfigError Config := do
  match tag with
  | "writer" => return { c with writer := ← singleText tag "writer" items }
  | "output-dir" =>
    return { c with outputDir := Path.resolve base (← singleText tag "output-dir" items) }
  | "truncate-namespace" =>
    return { c with truncateNamespace := ← asBool "truncate-namespace" (← single tag items) }
  | "runtime-module" => return { c with runtimeModule := ← singleText tag "runtime-module" items }
  | "max-workers" =>
    return { c with maxWorkers := ← ofForm ((← single tag items).asInteger "max-workers") }
  | "snapshot" =>
    let path ← singleText tag "snapshot" items
    return { c with snapshots := c.snapshots ++ [Path.resolve base path] }
  | "module" => return { c with modules := c.modules ++ [← readModule base items] }
  | _ => throw (.unknownOption tag)

/-- The options of a configuration, in order. -/
def applyOptions (base : Option Path) (c : Config) : List Sexp → Except ConfigError Config
  | [] => .ok c
  | x :: xs => do
    let (tag, items) ← ofForm x.form
    applyOptions base (← applyOption base c tag items) xs

/-- The settings that a text gives, seen from a base directory. -/
def read (base : Option Path) (text : String) : Except ConfigError Config := do
  match ← ofForm (readForms text) with
  | [x] =>
    let (tag, items) ← ofForm x.form
    if tag ≠ "config" then throw .notSingle
    let c ← applyOptions base {} items
    c.validate
    return c
  | _ => throw .notSingle

end Config

end NativeTypes
