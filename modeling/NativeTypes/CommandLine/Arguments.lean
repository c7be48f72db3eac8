/-
NativeTypes.CommandLine.Arguments — switches and operands.

An argument that starts with a dash is a switch: a long one (`--name`,
which may be cut short as long as one switch is meant, and may carry its
value after `=`), or a short one (`-x`, whose value or whose further short
switches may follow at once or after `=`). A lone dash, a negative number and an unknown
switch with a space in it are operands, and so is all that follows `--`.

All arguments are told apart first, so that a name that could mean two
switches is refused wherever it stands. Then they take effect in order. A
switch may end the reading with a page to show. Two dashes are never a
value: a switch that has them written together with it is left without one.

* `classify` — what one argument is.
* `spell` — what a switch with all that is written together with it does.
* `walk` — the effects in order; what no switch and no command takes is
  kept.
-/
import NativeTypes.Text.Letter

namespace NativeTypes.CommandLine

/-- A page that is shown instead of running a command. -/
inductive Page
  | help
  | version
  deriving DecidableEq, Repr

/-- Why arguments are refused. -/
inductive Misuse
  | ambiguous (argument : String) (names : List String)
  | unexpectedValue (name value : String)
  | missingValue (name : String)
  | badValue (name value : String)
  | unknownCommand (name : String)
  | unrecognized (arguments : List String)
  deriving DecidableEq, Repr

/-- Why the reading of arguments ends early. -/
inductive Halt
  | page (page : Page)
  | misuse (misuse : Misuse)
  deriving DecidableEq, Repr

/-- What a switch does to settings. -/
inductive Effect (α : Type)
  | set (change : α → α)
  /-- Takes a value, unless it is left without one; nothing for a value that it does not
  take. -/
  | take (change : Option String → α → Option α)
  | page (page : Page)

/-- A switch with its names, each a short or a long one. -/
structure Switch (α : Type) where
  names : List String
  effect : Effect α

variable {α : Type}

/-- The names of all switches. -/
def namesOf (switches : List (Switch α)) : List (String × Effect α) :=
  switches.flatMap fun s => s.names.map fun name => (name, s.effect)

/-- The switch with this very name. -/
def named? (switches : List (Switch α)) (name : String) : Option (Effect α) :=
  (namesOf switches).lookup name

/-! ## 1. Telling arguments apart -/

/-- What is written together with the name of a switch, without an equals sign between. -/
abbrev Tail := List Char

/-- What an argument is. -/
inductive Piece (α : Type)
  | operand
  /-- The two dashes after which there are only operands. -/
  | ending
  | unknown
  | use (name : String) (effect : Effect α) (tail : Option Tail)

/-- What stands before and after the first equals sign. -/
def splitEquals (cs : List Char) : Option (List Char × List Char) :=
  match cs.dropWhile (· ≠ '=') with
  | [] => none
  | _ :: value => some (cs.takeWhile (· ≠ '='), value)

/-- The switches that the start of a long name could mean. -/
def longReadings (switches : List (Switch α)) (cs : List Char) :
    List (String × Effect α × Option Tail) :=
  let (start, tail) : List Char × Option Tail := match splitEquals cs with
    | some (start, value) => (start, some value)
    | none => (cs, none)
  ((namesOf switches).filter fun n => start.isPrefixOf n.1.toList).map fun n => (n.1, n.2, tail)

/-- The switches that a short name with a tail could mean. -/
def shortReadings (switches : List (Switch α)) (cs : List Char) :
    List (String × Effect α × Option Tail) :=
  ((namesOf switches).filter fun n => n.1.toList = cs.take 2).map fun n =>
    (n.1, n.2, some (cs.drop 2))

/-- The switches that an argument could mean which is no name of one. -/
def readings (switches : List (Switch α)) (cs : List Char) :
    List (String × Effect α × Option Tail) :=
  match cs with
  | '-' :: '-' :: _ => longReadings switches cs
  | _ => shortReadings switches cs

/-- Digits, at least one. -/
def isDigits (cs : List Char) : Bool :=
  !cs.isEmpty && cs.all fun c => (Text.digitValue? c).isSome

/-- A negative number: digits, which may have a point before the last of them. -/
def isNegativeNumber (cs : List Char) : Bool :=
  match if cs.getLast? = some '\n' then cs.dropLast else cs with
  | '-' :: number =>
    isDigits number ||
      (match number.dropWhile fun c => (Text.digitValue? c).isSome with
        | '.' :: places => isDigits places
        | _ => false)
  | _ => false

/-- The exact reading of an argument: the name of a switch, or one with a value after `=`. -/
def fullReading? (switches : List (Switch α)) (argument : String) :
    Option (String × Effect α × Option Tail) :=
  match named? switches argument with
  | some effect => some (argument, effect, none)
  | none => (splitEquals argument.toList).bind fun (name, value) =>
      (named? switches (String.ofList name)).map fun effect =>
        (String.ofList name, effect, some value)

/-- What an argument is. -/
def classify (switches : List (Switch α)) (argument : String) : Except Misuse (Piece α) :=
  match argument.toList with
  | '-' :: c :: cs =>
    match fullReading? switches argument with
    | some (name, effect, tail) => .ok (.use name effect tail)
    | none =>
      match readings switches ('-' :: c :: cs) with
      | [(name, effect, tail)] => .ok (.use name effect tail)
      | [] =>
        if isNegativeNumber ('-' :: c :: cs) || (c :: cs).contains ' ' then .ok .operand
        else .ok .unknown
      | several => .error (.ambiguous argument (several.map Prod.fst))
  | _ => .ok .operand

/-- What each of several arguments is. -/
def classifyAll (switches : List (Switch α)) : List String → Except Misuse (List (String × Piece α))
  | [] => .ok []
  | argument :: rest =>
    if argument = "--" then .ok ((argument, .ending) :: rest.map fun a => (a, .operand))
    else do
      let piece ← classify switches argument
      return (argument, piece) :: (← classifyAll switches rest)

/-! ## 2. Effects -/

/-- A change of settings, or the end of the reading. -/
abbrev Change (α : Type) := α → Except Halt α

/-- The change that a value makes. -/
def changeBy (name : String) (change : Option String → α → Option α) (value : String) :
    Change α :=
  fun settings =>
    match change (if value = "--" then none else some value) settings with
    | some settings => .ok settings
    | none => .error (.misuse (.badValue name value))

/-- What an argument comes to. -/
structure Spelled (α : Type) where
  changes : List (Change α)
  /-- How many of the next arguments are taken as its value. -/
  taken : Nat := 0

/-- A switch that stands alone; `next` is the operand after it. -/
def spellAlone (next : Option String) (name : String) :
    Effect α → Except Misuse (Spelled α)
  | .set change => .ok { changes := [fun settings => .ok (change settings)] }
  | .page page => .ok { changes := [fun _ => .error (.page page)] }
  | .take change =>
    match next with
    | some value => .ok { changes := [changeBy name change value], taken := 1 }
    | none => .error (.missingValue name)

/-- The change of a switch without a value. -/
def plainChange? : Effect α → Option (Change α)
  | .set change => some fun settings => .ok (change settings)
  | .page page => some fun _ => .error (.page page)
  | .take _ => none

/-- A switch and what is written together with it: its value, or, after a short switch
without a value, more short switches, all of which must be known. -/
def spellTailed (switches : List (Switch α)) (next : Option String) (name : String)
    (effect : Effect α) (tail : Tail) : Except Misuse (Spelled α) :=
  match effect with
  | .take change => .ok { changes := [changeBy name change (String.ofList tail)] }
  | .set _ | .page _ =>
    match tail with
    | [] => .error (.unexpectedValue name "")
    | c :: cs =>
      let more := String.ofList ['-', c]
      match if "--".toList.isPrefixOf name.toList then none else named? switches more with
      | none => .error (.unexpectedValue name (String.ofList (c :: cs)))
      | some effect' =>
        let rest :=
          if cs.isEmpty then spellAlone next more effect'
          else spellTailed switches next more effect' cs
        rest.map fun r => { r with changes := (plainChange? effect).toList ++ r.changes }

/-- What the use of a switch comes to. -/
def spell (switches : List (Switch α)) (next : Option String) (name : String)
    (effect : Effect α) : Option Tail → Except Misuse (Spelled α)
  | none => spellAlone next name effect
  | some tail => spellTailed switches next name effect tail

/-- The changes one after the other. -/
def applyAll (settings : α) : List (Change α) → Except Halt α
  | [] => .ok settings
  | change :: rest => do applyAll (← change settings) rest

/-! ## 3. The walk -/

/-- What a walk over arguments ends with. -/
structure Walked (α : Type) where
  settings : α
  /-- Arguments that nothing takes. -/
  extra : List String := []
  /-- The arguments from the command on. -/
  command : List String := []

/-- The operand that comes first, if one does. -/
def nextOperand? : List (String × Piece α) → Option String
  | (text, .operand) :: _ => some text
  | _ => none

/-- The walk over arguments that were told apart. Where a command is expected, it is the
first operand, and all that follows belongs to it. -/
def walk (switches : List (Switch α)) (expectsCommand : Bool) (settings : α)
    (extra : List String) (pieces : List (String × Piece α)) : Except Halt (Walked α) :=
  match pieces with
  | [] => .ok { settings, extra }
  | (text, .operand) :: rest =>
    if expectsCommand then .ok { settings, extra, command := text :: rest.map Prod.fst }
    else walk switches expectsCommand settings (extra ++ [text]) rest
  | (text, .ending) :: rest =>
    if expectsCommand && !rest.isEmpty then
      .ok { settings, extra, command := text :: rest.map Prod.fst }
    else walk switches expectsCommand settings (extra ++ [text]) rest
  | (text, .unknown) :: rest => walk switches expectsCommand settings (extra ++ [text]) rest
  | (_, .use name effect tail) :: rest => do
    let spelled ← (spell switches (nextOperand? rest) name effect tail).mapError .misuse
    let settings ← applyAll settings spelled.changes
    walk switches expectsCommand settings extra (rest.drop spelled.taken)
termination_by pieces.length
decreasing_by
  all_goals simp only [List.length_cons, List.length_drop]
  all_goals omega

/-- The settings that arguments give. -/
def readArguments (switches : List (Switch α)) (expectsCommand : Bool) (settings : α)
    (arguments : List String) : Except Halt (Walked α) := do
  let pieces ← (classifyAll switches arguments).mapError .misuse
  walk switches expectsCommand settings [] pieces

end NativeTypes.CommandLine
