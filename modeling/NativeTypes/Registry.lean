/-
NativeTypes.Registry — which instance has which keys.

A key belongs to at most one instance. The first key of an instance is its
primary key, the later ones are aliases: typedefs and other spellings. An
instance can be marked invalid; the first reason stays.

What keys are does not matter for keeping them. It matters for listing what
is registered: instances and keys are listed in the order in which keys are
written, and there is no list when one of these keys cannot be written.
-/
import NativeTypes.Instance.Graph
import NativeTypes.Key

namespace NativeTypes

/-- The keys of instances, in both directions, and the invalid instances. -/
structure Registry (κ : Type) where
  byKey : Assoc κ Handle := []
  keys : Assoc Handle (List κ) := []
  invalid : Assoc Handle String := []

/-- A registration that is refused. -/
inductive RegistryFault (κ : Type)
  /-- The key belongs to another instance. -/
  | taken (key : κ) (holder : Handle)
  /-- The instance that is to be aliased has no key yet. -/
  | unregistered (key : κ) (target : Handle)
  deriving DecidableEq

/-- The words for a refusal; they name the key, so it has to be one that can be written. -/
def RegistryFault.message (module : String) (g : Graph) : RegistryFault Key → String
  | taken key holder =>
    if key.isWritable then
      "key " ++ key.text module ++ " already registered to " ++ g.shown holder
    else Text.tooManyDigits
  | unregistered key target =>
    if key.isWritable then
      "cannot alias " ++ key.text module ++ " to unregistered " ++ g.shown target
    else Text.tooManyDigits

namespace Registry

/-! ## 1. Keys and instances -/

section

variable {κ : Type}

/-- How many instances are registered. -/
def size (r : Registry κ) : Nat := r.keys.length

/-- The keys of an instance, the primary one first. -/
def keysOf (r : Registry κ) (h : Handle) : List κ := (r.keys.get? h).getD []

/-- The primary key of an instance. -/
def keyOf? (r : Registry κ) (h : Handle) : Option κ := (r.keysOf h).head?

/-- Marks an instance invalid. -/
def markInvalid (r : Registry κ) (h : Handle) (reason : String) : Registry κ :=
  { r with invalid := r.invalid.putNew h reason }

/-- The instance is marked invalid. -/
def isInvalid (r : Registry κ) (h : Handle) : Bool := r.invalid.has h

variable [DecidableEq κ]

/-- The instance of a key. -/
def get? (r : Registry κ) (key : κ) : Option Handle := r.byKey.get? key

/-- The registry with a free key given to an instance. -/
def bind (r : Registry κ) (key : κ) (h : Handle) : Registry κ :=
  { r with byKey := r.byKey.put key h, keys := r.keys.put h (r.keysOf h ++ [key]) }

/-- Registers an instance under a key; a key that it has already changes nothing. -/
def register (r : Registry κ) (key : κ) (h : Handle) : Except (RegistryFault κ) (Registry κ) :=
  match r.get? key with
  | none => .ok (r.bind key h)
  | some holder => if holder = h then .ok r else .error (.taken key holder)

/-- Gives a registered instance one more key, unless the key belongs to an instance. -/
def addAlias (r : Registry κ) (key : κ) (h : Handle) : Except (RegistryFault κ) (Registry κ) :=
  match r.get? key with
  | some _ => .ok r
  | none => if (r.keys.get? h).isSome then .ok (r.bind key h) else .error (.unregistered key h)

end

/-! ## 2. Lists in the order of keys -/

section

variable {κ : Type}

/-- Elements in the order of their texts, if each has one. -/
def inTextOrder? {α : Type} (text? : α → Option String) (as : List α) : Option (List α) :=
  if as.all fun a => (text? a).isSome then
    some (as.mergeSort fun a b => (text? a).getD "" ≤ (text? b).getD "")
  else none

/-- The text of the primary key of an instance, if it has one that can be written. -/
def keyText? (r : Registry κ) (text? : κ → Option String) (h : Handle) : Option String :=
  (r.keyOf? h).bind text?

/-- Every registered instance, in the order of primary keys, if these can be written. -/
def instances? (r : Registry κ) (text? : κ → Option String) : Option (List Handle) :=
  inTextOrder? (r.keyText? text?) (r.keys.map Prod.fst)

/-- Every key with its instance, in the order of keys, if these can be written. -/
def items? (r : Registry κ) (text? : κ → Option String) : Option (List (κ × Handle)) :=
  inTextOrder? (fun item => text? item.1) r.byKey

end

/-- The text of the primary key of an instance, empty if it has none. Where a list of the instances
was given, all of these can be written. -/
def keyText (r : Registry Key) (module : String) (h : Handle) : String :=
  ((r.keyOf? h).map (Key.text module)).getD ""

/-- Every registered instance, in the order of primary keys: the list that there is when these can
be written. -/
def instances (r : Registry Key) (module : String) : List Handle :=
  (r.keys.map Prod.fst).mergeSort fun a b => r.keyText module a ≤ r.keyText module b

end Registry

end NativeTypes
