/-
NativeTypes.Key — the identity of a type within the run over one module.

A named type is known by its normalized name and the keys of its template
arguments; a structural type by a reserved name (`*` pointer, `[N]` or `[]`
array, `()` or `(...)` function) over the keys of its parts. Keys are
ordered by their text.

A run is about one module, so its keys do not say which: the module comes in
where a key is written. A key with a number of too many digits among its
arguments cannot be written (`text?`). The runs of a resolver make no such
key, so what is made of their types uses `text`, which is total.
-/
import NativeTypes.Primitive

namespace NativeTypes

mutual
/-- A key: a name over arguments. -/
inductive Key
  | mk (name : String) (arguments : List KeyArgument)
  deriving Inhabited

/-- An argument of a key. -/
inductive KeyArgument
  | key (key : Key)
  | number (value : Int)
end

namespace Key

/-- The name of a key. -/
def name : Key → String
  | mk name _ => name

/-- The arguments of a key. -/
def arguments : Key → List KeyArgument
  | mk _ arguments => arguments

end Key

mutual
/-- Equality of keys is decided part by part. -/
def Key.decEq : (a b : Key) → Decidable (a = b)
  | .mk n as, .mk m bs =>
    if h : n = m then
      match KeyArgument.decEqList as bs with
      | isTrue h' => isTrue (by rw [h, h'])
      | isFalse h' => isFalse fun e => h' (by cases e; rfl)
    else isFalse fun e => h (by cases e; rfl)

/-- Equality of arguments is decided part by part. -/
def KeyArgument.decEq : (a b : KeyArgument) → Decidable (a = b)
  | .key a, .key b =>
    match Key.decEq a b with
    | isTrue h => isTrue (by rw [h])
    | isFalse h => isFalse fun e => h (by cases e; rfl)
  | .number m, .number n =>
    if h : m = n then isTrue (by rw [h]) else isFalse fun e => h (by cases e; rfl)
  | .key _, .number _ => isFalse nofun
  | .number _, .key _ => isFalse nofun

/-- Equality of argument lists is decided argument by argument. -/
def KeyArgument.decEqList : (as bs : List KeyArgument) → Decidable (as = bs)
  | [], [] => isTrue rfl
  | a :: as, b :: bs =>
    match KeyArgument.decEq a b with
    | isTrue h =>
      match KeyArgument.decEqList as bs with
      | isTrue h' => isTrue (by rw [h, h'])
      | isFalse h' => isFalse fun e => h' (by cases e; rfl)
    | isFalse h => isFalse fun e => h (by cases e; rfl)
  | [], _ :: _ => isFalse nofun
  | _ :: _, [] => isFalse nofun
end

instance : DecidableEq Key := Key.decEq

instance : DecidableEq KeyArgument := KeyArgument.decEq

mutual
/-- The text of a key of the given module. -/
def Key.text (module : String) : Key → String
  | .mk name [] => module ++ "!" ++ name
  | .mk name (a :: as) =>
    module ++ "!" ++ name ++ "<" ++ a.text module ++ KeyArgument.restText module as ++ ">"

/-- The text of an argument. -/
def KeyArgument.text (module : String) : KeyArgument → String
  | .key key => key.text module
  | .number value => toString value

/-- The texts of the arguments behind the first one, each behind its mark. -/
def KeyArgument.restText (module : String) : List KeyArgument → String
  | [] => ""
  | a :: as => ", " ++ a.text module ++ KeyArgument.restText module as
end

mutual
/-- Every number among the arguments can be written; the name is a text already. -/
def Key.isWritable : Key → Bool
  | .mk _ arguments => KeyArgument.areWritable arguments

/-- The argument can be written. -/
def KeyArgument.isWritable : KeyArgument → Bool
  | .key key => key.isWritable
  | .number value => Text.isWritable value

/-- All arguments can be written. -/
def KeyArgument.areWritable : List KeyArgument → Bool
  | [] => true
  | a :: as => a.isWritable && KeyArgument.areWritable as
end

namespace Key

/-- The text of a key, if it can be written. -/
def text? (module : String) (key : Key) : Option String :=
  if key.isWritable then some (key.text module) else none

/-- The key of a type known by name alone. -/
def named (name : String) : Key := mk name []

/-- The key of a scalar. -/
def primitive (kind : Primitive) : Key := named kind.token

/-- The key of a pointer. -/
def pointer (target : Key) : Key := mk "*" [.key target]

/-- The text between the brackets of an array. -/
def lengthText : Option Int → String
  | none => ""
  | some n => toString n

/-- The key of an array. -/
def array (element : Key) (length : Option Int) : Key :=
  mk ("[" ++ lengthText length ++ "]") [.key element]

/-- The key of a function. -/
def function (result : Key) (parameters : List Key) (variadic : Bool) : Key :=
  mk (if variadic then "(...)" else "()") (.key result :: parameters.map .key)

/-- The name is one of the reserved ones. -/
def isStructural (k : Key) : Bool :=
  match k.name.toList with
  | c :: _ => c == '*' || c == '[' || c == '('
  | [] => false

/-- The order of keys is that of their texts. -/
def le (module : String) (a b : Key) : Bool := a.text module ≤ b.text module

end Key

end NativeTypes
