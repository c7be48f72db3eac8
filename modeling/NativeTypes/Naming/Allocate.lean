/-
NativeTypes.Naming.Allocate — identifiers for the declarations of a module,
and the names of members that were given out.

Every declaration proposes a candidate: its own name, with or without its
scopes; a function without name a digest of its key; a type without name
its smallest typedef. Candidates are taken in order, those of one candidate
in the order of keys: the first one keeps the bare candidate unless it is
reserved, the others take the first free number from two on. So the result
depends on the set of declarations and not on their order.

Whoever asks again for the names of the members of a declaration, clear of
the same reserved names, gets the same answer, also when the declaration has
taken or lost members in between. Answers are kept by declaration and by the
set of reserved names; `members_record` says that a recorded answer stays.
-/
import NativeTypes.Diagnostic
import NativeTypes.Digest.Sha1
import NativeTypes.Naming.Identifier
import NativeTypes.Registry
import NativeTypes.Shape

namespace NativeTypes.Naming

/-- How identifiers are chosen. -/
structure Policy where
  truncateNamespace : Bool := true
  reserved : List String := reservedIdentifiers
  maxSuffix : Int := 10000

/-- Why no identifiers are given. -/
inductive AllocationFault
  /-- An instance has no key. -/
  | unregistered
  /-- Every number of a candidate is taken. -/
  | exhausted (candidate keyText : String)
  /-- An instance gets no declaration. -/
  | undeclarable (shown : String)
  /-- A number in the name that a typedef gives cannot be written. -/
  | tooManyDigits
  deriving DecidableEq, Repr

/-- The report of a fault. -/
def AllocationFault.report : AllocationFault → Report
  | unregistered => ⟨"not enough values to unpack (expected at least 1, got 0)", []⟩
  | exhausted candidate keyText =>
    ⟨"no free identifier for " ++ keyText, [("candidate", candidate)]⟩
  | undeclarable shown => ⟨shown ++ " does not get a declaration identifier", []⟩
  | tooManyDigits => ⟨Text.tooManyDigits, []⟩

/-! ## 1. Candidates -/

/-- The text starts with the mark of types without name. -/
def isAnonymous (name : String) : Bool :=
  (Scanner.after? Shape.anonymousMark.toList name.toList).isSome

/-- The names among aliases that a typedef gave: those of no structure, without arguments
and not made up. -/
def typedefNames (aliases : List Key) : List String :=
  (aliases.filter fun k => !k.isStructural && k.arguments.isEmpty && !isAnonymous k.name).map
    Key.name

/-- The smallest of the names that typedefs gave. -/
def firstTypedef? (aliases : List Key) : Option String :=
  ((typedefNames aliases).mergeSort fun a b => a ≤ b).head?

/-- The name that typedefs give to a type without name: the smallest. -/
def typedefName? (truncate : Bool) (aliases : List Key) : Option String :=
  (firstTypedef? aliases).map fun name =>
    if truncate then ((TypeName.parse? name).map TypeName.shortName).getD name else name

/-- An instance is named by a typedef whose last segment cannot be written. -/
def isUnwritable (policy : Policy) (i : Instance) (aliases : List Key) : Bool :=
  policy.truncateNamespace && i.typeName?.any isAnonymous &&
    ((firstTypedef? aliases).bind TypeName.parse?).any fun t => !t.base.last.isWritable

/-- The candidate for an aggregate or enumeration. -/
def typeCandidate (truncate : Bool) (aliases : List Key) (scope name : String) : String :=
  let own := sanitize (if truncate then name else qualified scope name)
  if isAnonymous name then ((typedefName? truncate aliases).map sanitize).getD own else own

/-- The candidate for a function. -/
def functionCandidate (name : Option String) (keyText : String) : String :=
  match name with
  | some name =>
    if name.isEmpty then digest else sanitize name
  | none => digest
where
  /-- A name made of the key. -/
  digest : String := "func_" ++ String.ofList ((Digest.Sha1.hexOfText keyText).toList.take 8)

/-- The identifier that an instance proposes, if it is one that gets a declaration. -/
def candidate? (policy : Policy) (i : Instance) (keyText : String) (aliases : List Key) :
    Option String :=
  match i with
  | .function f => some (functionCandidate f.name keyText)
  | .aggregate a => some (typeCandidate policy.truncateNamespace aliases a.scope a.name)
  | .enumeration e => some (typeCandidate policy.truncateNamespace aliases e.scope e.name)
  | _ => none

/-- The identifier that an instance of a graph proposes; not every one does. -/
def candidateOf (policy : Policy) (g : Graph) (h : Handle) (keyText : String)
    (aliases : List Key) : Except AllocationFault String :=
  if isUnwritable policy (g.get h) aliases then .error .tooManyDigits
  else
    match candidate? policy (g.get h) keyText aliases with
    | some name => .ok name
    | none => .error (.undeclarable (g.shown h))

/-! ## 2. Allocation -/

/-- A declaration that waits for its identifier. -/
structure Proposal where
  candidate : String
  keyText : String
  handle : Handle

/-- By candidate, then by key. -/
def Proposal.le (a b : Proposal) : Bool :=
  a.candidate < b.candidate || (a.candidate == b.candidate && a.keyText ≤ b.keyText)

/-- The proposals of the named instances among `hs`. -/
def proposals (policy : Policy) (module : String) (g : Graph) (r : Registry Key) :
    List Handle → Except AllocationFault (List Proposal)
  | [] => .ok []
  | h :: hs =>
    if (g.get h).isNamed then
      match r.keysOf h with
      | [] => .error .unregistered
      | key :: aliases => do
        if isUnwritable policy (g.get h) aliases then throw .tooManyDigits
        let rest ← proposals policy module g r hs
        match candidate? policy (g.get h) (key.text module) aliases with
        | some candidate => return ⟨candidate, key.text module, h⟩ :: rest
        | none => return rest
    else proposals policy module g r hs

/-- Bare candidates for those that come first; the others wait. -/
def giveBare (taken : List String) :
    List Proposal → List (Proposal × String) × List Proposal
  | [] => ([], [])
  | p :: ps =>
    if taken.contains p.candidate then
      let (given, waiting) := giveBare taken ps
      (given, p :: waiting)
    else
      let (given, waiting) := giveBare (p.candidate :: taken) ps
      ((p, p.candidate) :: given, waiting)

/-- Numbered candidates for those that wait. -/
def giveNumbered (tries : Nat) (taken : List String) :
    List Proposal → Except AllocationFault (List (Proposal × String))
  | [] => .ok []
  | p :: ps =>
    match numbered (fun name => !taken.contains name) p.candidate tries 2 with
    | none => .error (.exhausted p.candidate p.keyText)
    | some ident => do return (p, ident) :: (← giveNumbered tries (ident :: taken) ps)

/-- Identifiers for the named instances among `hs`. -/
def allocate (policy : Policy) (module : String) (g : Graph) (r : Registry Key) (hs : List Handle) :
    Except AllocationFault NameTable := do
  let ordered := (← proposals policy module g r hs).mergeSort Proposal.le
  let (bare, waiting) := giveBare policy.reserved ordered
  let taken := bare.map Prod.snd ++ policy.reserved
  let numbered ← giveNumbered policy.maxSuffix.toNat taken waiting
  return (bare ++ numbered).foldl (fun table given => table.put given.1.handle given.2) []

/-- The names of the members of a declaration. -/
def memberNames (g : Graph) (h : Handle) : List String :=
  match g.get h with
  | .aggregate a => a.fields.map FieldPart.name
  | .enumeration e => e.members.map Prod.fst
  | _ => []

/-- Identifiers for the members of a declaration. -/
def members (g : Graph) (h : Handle) (reserved : List String) : List String :=
  allocateMembers (memberNames g h) reserved

/-- Every identifier of a table, in order. -/
def identifiers (table : NameTable) : List String :=
  (table.map Prod.snd).mergeSort fun a b => a ≤ b

/-- The names of members given out, by declaration and reserved names. -/
abbrev Remembered := Assoc (Handle × List String) (List String)

namespace Remembered

/-- A question. The order of the reserved names does not matter, nor does it how often one of
them occurs. -/
def question (h : Handle) (reserved : List String) : Handle × List String :=
  (h, reserved.eraseDups.mergeSort fun a b => a ≤ b)

/-- The names of the members of a declaration: those given out before, or new ones. -/
def members (r : Remembered) (g : Graph) (h : Handle) (reserved : List String) : List String :=
  (Assoc.get? r (question h reserved)).getD (Naming.members g h reserved)

/-- From now on the answer to a question is the one that it has in `g`. -/
def record (r : Remembered) (g : Graph) (h : Handle) (reserved : List String) : Remembered :=
  Assoc.putNew r (question h reserved) (members r g h reserved)

theorem members_record (r : Remembered) (g g' : Graph) (h : Handle) (reserved : List String) :
    members (record r g h reserved) g' h reserved = members r g h reserved := by
  unfold record Assoc.putNew
  split
  · rename_i known
    obtain ⟨answer, eq⟩ := Option.isSome_iff_exists.1 known
    simp [members, eq]
  · simp [members, Assoc.get?_put]

end Remembered

/-- A table of names, with the names of members that were given out from it. -/
structure Names where
  table : NameTable
  given : Remembered := []

namespace Names

/-- The names of the members of a declaration. -/
def members (n : Names) (g : Graph) (h : Handle) (reserved : List String) : List String :=
  n.given.members g h reserved

/-- The names of the members of a declaration are given out. -/
def record (n : Names) (g : Graph) (h : Handle) (reserved : List String) : Names :=
  { n with given := n.given.record g h reserved }

theorem table_record (n : Names) (g : Graph) (h : Handle) (reserved : List String) :
    (n.record g h reserved).table = n.table := rfl

end Names

end NativeTypes.Naming
