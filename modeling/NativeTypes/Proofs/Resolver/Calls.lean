/-
NativeTypes.Proofs.Resolver.Calls — what declaring a reference asks for.

A resolver declares a reference by small edits of its own and by declaring
other references. Which ones is said by what the source tells about it
(`Shape.calls`), in an order, with a typedef open or not.

* `Edit`, `Quiet` — the edits: the source is asked, or something is noted
  that is neither declared, open nor waiting.
* `Trace calls` — edits, and in between exactly these calls, all of which
  return.
* `Broken calls` — a trace of some of the calls that ends in a stop: that of
  a call, or an `Excused` one.

`Plays` says of a run that it is a trace of given calls, or breaks off one.
That an aggregate is put on the worklist at the end is kept apart
(`Places`), so that there is at most one for each reference. What is
well-formed and how tables grow was said before (`Steps`); it is used here
for what a run hands to the next one.
-/
import Mathlib.Logic.Relation
import NativeTypes.Proofs.Resolver.Declare

namespace NativeTypes

/-! ## 1. Described types -/

namespace Shape

/-- The name a described type goes by: its own, or one made of its id. -/
def title (shape : Shape) : String :=
  if !shape.name.isEmpty then shape.name
  else
    match shape.typeId with
    | some id => anonymousMark ++ "-" ++ String.ofList (Text.hexInt id) ++ ">"
    | none => ""

/-- A described type that needs no running number: it has a name or an id, or goes by neither. -/
def IsTitled (shape : Shape) : Prop :=
  shape.name.isEmpty = false ∨ shape.typeId.isSome = true ∨ shape.kind = .primitive ∨
    shape.kind = .unsupported

end Shape

namespace Resolver

variable {σ : Type} {α β : Type}

/-- A reference that is declared for another one, with the typedef that is open meanwhile. -/
structure Call where
  opens : Option String
  ref : Ref
  deriving DecidableEq

/-- A call with nothing open. -/
def Call.to (ref : Ref) : Call := ⟨none, ref⟩

/-- The arguments of the template that a name is made from. -/
def templateArguments (name : String) : List Argument :=
  ((TypeName.parsePlain? name).filter TypeName.isTemplate).elim [] TypeName.arguments

/-- The types among template arguments. -/
def argumentCalls : List Argument → List Call
  | [] => []
  | .number _ :: rest => argumentCalls rest
  | .type t :: rest => .to (.name t.format) :: argumentCalls rest

end Resolver

/-- What a described type is made of, in the order in which it is declared. -/
def Shape.calls (label : String) (shape : Shape) : List Resolver.Call :=
  match shape.kind with
  | .primitive | .unsupported => []
  | .pointer | .array => shape.target.toList.map .to
  | .typedef => shape.target.toList.map fun target => ⟨some label, target⟩
  | .enumeration => shape.underlying.toList.map .to
  | .function => shape.result.toList.map .to ++ shape.parameters.map .to
  | .struct | .union => Resolver.argumentCalls (Resolver.templateArguments shape.title)

namespace Resolver

/-- A description of every reference; none if it is unknown. -/
abbrev Description := Ref → Option Shape

/-- What a reference asks for: a name that is not canonical asks for one that is closer to it,
all else for what its type is made of. -/
def calls (describe : Description) (ref : Ref) : List Call :=
  match ref with
  | .id _ => (describe ref).elim [] (Shape.calls (labelOf ref))
  | .name text =>
    match TypeName.parse text with
    | .error _ => []
    | .ok t =>
      if !t.suffixes.isEmpty then [.to (.name t.withoutSuffixes.format)]
      else if t.format ≠ text then [.to (.name t.format)]
      else (describe ref).elim [] (Shape.calls (labelOf ref))

/-- A text that is its own canonical spelling; ids are. -/
def IsNormal : Ref → Prop
  | .id _ => True
  | .name text => TypeName.normalize text = .ok text

/-- As long as the state of the source is valid, it answers from a description in which everything
has a name or an id, and its state stays valid. -/
structure Describes (task : Task σ) (describe : Description) (valid : σ → Prop) : Prop where
  answers : ∀ {session ref answer}, valid session →
    (task.source.lookup session task.module ref).1 = .ok answer → answer = describe ref
  looked : ∀ {session} ref, valid session →
    valid (task.source.lookup session task.module ref).2
  polled : ∀ {session}, valid session → valid (task.source.stopRequested session).2
  titled : ∀ ref shape, describe ref = some shape → shape.IsTitled

/-- The answers that a resolver remembers are those of the description, and the state of the source
is valid. -/
def Truthful (describe : Description) (valid : σ → Prop) (s : State σ) : Prop :=
  valid s.session ∧ ∀ ref answer, s.shapes.get? ref = some answer → answer = describe ref

/-! ## 2. Edits -/

variable (task : Task σ) (describe : Description)

/-- What a quiet edit leaves alone, unless it asks the source or takes a key. -/
def books (s : State σ) :=
  (s.session, s.shapes, s.declared, s.openAliases, s.placed, s.placeholders, s.worklist,
    s.defining)

/-- A small edit. The source is asked about normal references that it gave no answer to yet, and
only free keys are taken. -/
inductive Edit (s : State σ) : State σ → Prop
  | polled : Edit s { s with session := (task.source.stopRequested s.session).2 }
  | lost {ref : Ref} {fault : SourceFault} {session : σ} : s.shapes.get? ref = none →
      IsNormal ref → task.source.lookup s.session task.module ref = (.error fault, session) →
      Edit s { s with session }
  | answered {ref : Ref} {answer : Option Shape} {session : σ} : s.shapes.get? ref = none →
      IsNormal ref → task.source.lookup s.session task.module ref = (.ok answer, session) →
      Edit s { s with session, shapes := s.shapes.put ref answer, lastQuery := some ref }
  | noted {s' : State σ} : books s' = books s → s'.registry = s.registry → Edit s s'
  | bound {s' : State σ} {key : Key} {h : Handle} : books s' = books s →
      s.registry.get? key = none → s'.registry = s.registry.bind key h → Edit s s'

/-- Edits one after the other. -/
def Quiet (s s' : State σ) : Prop := Relation.ReflTransGen (Edit task) s s'

/-- An aggregate that is put on the worklist, with the shape that something is described by. -/
structure Waits (s s' : State σ) : Prop where
  session : s'.session = s.session
  registry : s'.registry = s.registry
  shapes : s'.shapes = s.shapes
  declared : s'.declared = s.declared
  openAliases : s'.openAliases = s.openAliases
  placeholders : ∃ h, s'.placeholders = s.placeholders ++ [h]
  placed : ∃ h ref shape, describe ref = some shape ∧
    (shape.kind = .struct ∨ shape.kind = .union) ∧ s'.placed = s.placed.put h shape

/-- A number that is to be written for the reference is too long: one in its name, one in the name
of its type, or the length of its type. -/
inductive Overlong (ref : Ref) : Prop
  | name {text : String} {t : TypeName} : ref = .name text → TypeName.parse text = .ok t →
      t.isWritable = false → Overlong ref
  | title {shape : Shape} {t : TypeName} : describe ref = some shape →
      TypeName.parsePlain? shape.title = some t → t.isWritable = false → Overlong ref
  | length {shape : Shape} {n : Int} : describe ref = some shape → shape.length = some n →
      Text.isWritable n = false → Overlong ref

variable (ref : Ref)

/-- A stop that comes from outside while a reference is declared, at a state of the source: it
failed or the run was to stop, a number is too long, or the key of an enumeration was taken by
what was declared for it. -/
inductive Excused (session : σ) (s : State σ) : Stop → Prop
  | lost {fault : SourceFault} :
      (task.source.lookup session task.module ref).1 = .error fault →
      Excused session s (lookupStop task ref fault)
  | unsized {fault : SourceFault} : task.source.pointerSize session task.module = .error fault →
      Excused session s (pointerSizeStop task fault)
  | cancelled : (task.source.stopRequested session).1 = true →
      Excused session s (.cancelled task.module)
  | unwritable : Overlong describe ref → Excused session s .tooManyDigits
  | taken {shape : Shape} {holder : Handle} : describe ref = some shape →
      shape.kind = .enumeration → s.registry.get? (keyOfName shape.title) = some holder →
      Excused session s (.registry
        ((RegistryFault.taken (keyOfName shape.title) holder).message task.module s.graph))

variable (declare : Ref → Run σ Handle)

/-- The state in which a call's reference is declared. -/
def Call.enter (c : Call) (s : State σ) : State σ :=
  { s with openAliases := c.opens.toList ++ s.openAliases }

/-- The state that a call leaves. -/
def Call.leave (c : Call) (s : State σ) : State σ :=
  { s with openAliases := c.opens.elim s.openAliases s.openAliases.erase }

/-- Makes a call. -/
def Call.run (c : Call) : Run σ Handle :=
  match c.opens with
  | none => declare c.ref
  | some label => withOpenAlias label (declare c.ref)

/-- Edits with exactly these calls in between, all of which return. -/
inductive Trace : List Call → State σ → State σ → Prop
  | done {s s' : State σ} : Quiet task s s' → Trace [] s s'
  | call {s t u s' : State σ} {c : Call} {rest : List Call} {h : Handle} : Quiet task s t →
      WellFormed t → c.run declare t = .ok h u → Trace rest u s' → Trace (c :: rest) s s'

/-- Edits and some of the calls, up to a stop. -/
inductive Broken : List Call → State σ → Stop → State σ → Prop
  | here {s t s' : State σ} {calls : List Call} {e : Stop} : Quiet task s t → Quiet task t s' →
      Excused task describe ref t.session s' e → Broken calls s e s'
  | call {s t s' : State σ} {c : Call} {rest : List Call} {e : Stop} : Quiet task s t →
      WellFormed t → c.run declare t = .error e s' → Broken (c :: rest) s e s'
  | later {s t u s' : State σ} {c : Call} {rest : List Call} {h : Handle} {e : Stop} :
      Quiet task s t → WellFormed t → c.run declare t = .ok h u → Broken rest u e s' →
      Broken (c :: rest) s e s'

/-- A run makes these calls, unless it breaks off. -/
def Plays (s : State σ) (calls : List Call) (run : Run σ α) : Prop :=
  Ensures run s (fun _ s' => Trace task declare calls s s')
    fun e s' => Broken task describe ref declare calls s e s'

/-- A run makes these calls and may put one aggregate on the worklist at the end. -/
def Places (s : State σ) (calls : List Call) (run : Run σ α) : Prop :=
  Ensures run s (fun _ s' => ∃ t, Trace task declare calls s t ∧ (t = s' ∨ Waits describe t s'))
    fun e s' => Broken task describe ref declare calls s e s'

variable {task} {describe} {ref} {declare} {s s' t u : State σ}

theorem ensures_call {c : Call} {Q : Handle → State σ → Prop} {E : Stop → State σ → Prop}
    (h : Ensures (declare c.ref) (c.enter s) (fun a t => Q a (c.leave t))
      fun e t => E e (c.leave t)) : Ensures (c.run declare) s Q E := by
  obtain ⟨opens, ref⟩ := c
  cases opens with
  | none => exact h
  | some label =>
    unfold Ensures Call.run withOpenAlias
    unfold Ensures Call.enter Call.leave at h
    simp only [Option.toList_some, List.singleton_append, Option.elim_some] at h ⊢
    cases hr : declare ref { s with openAliases := label :: s.openAliases } with
    | ok a t =>
      rw [hr] at h
      exact h
    | error e t =>
      rw [hr] at h
      exact h

/-- Well-formedness is not about typedefs that are open. -/
theorem WellFormed.enter (hs : WellFormed s) (c : Call) : WellFormed (c.enter s) :=
  ⟨⟨hs.coherent, hs.registered, hs.parts, hs.below, hs.keyBuilt, hs.declared⟩, hs.placed⟩

theorem Quiet.refl (s : State σ) : Quiet task s s := Relation.ReflTransGen.refl

theorem Quiet.noted (h : books s' = books s) (hregistry : s'.registry = s.registry) :
    Quiet task s s' :=
  Relation.ReflTransGen.single (.noted h hregistry)

theorem Quiet.trans (h : Quiet task s t) (h' : Quiet task t u) : Quiet task s u :=
  Relation.ReflTransGen.trans h h'

namespace Trace

variable {calls rest : List Call}

theorem after (hq : Quiet task s t) (h : Trace task declare calls t u) :
    Trace task declare calls s u := by
  cases h with
  | done h => exact .done (hq.trans h)
  | call h hw hrun hrest => exact .call (hq.trans h) hw hrun hrest

theorem append (h : Trace task declare calls s t) (h' : Trace task declare rest t u) :
    Trace task declare (calls ++ rest) s u := by
  induction h with
  | done hq => exact h'.after hq
  | call hq hw hrun _ ih => exact .call hq hw hrun (ih h')

end Trace

namespace Broken

variable {calls rest : List Call} {e : Stop}

theorem after (hq : Quiet task s t) (h : Broken task describe ref declare calls t e u) :
    Broken task describe ref declare calls s e u := by
  cases h with
  | here h h' he => exact .here (hq.trans h) h' he
  | call h hw hrun => exact .call (hq.trans h) hw hrun
  | later h hw hrun hrest => exact .later (hq.trans h) hw hrun hrest

theorem prepend (h : Trace task declare calls s t)
    (h' : Broken task describe ref declare rest t e u) :
    Broken task describe ref declare (calls ++ rest) s e u := by
  induction h with
  | done hq => exact h'.after hq
  | call hq hw hrun _ ih => exact .later hq hw hrun (ih h')

theorem append (h : Broken task describe ref declare calls s e u) :
    Broken task describe ref declare (calls ++ rest) s e u := by
  induction h with
  | here h h' he => exact .here h h' he
  | call h hw hrun => exact .call h hw hrun
  | later h hw hrun _ ih => exact .later h hw hrun ih

end Broken

/-! ## 3. Runs -/

theorem plays_pure (a : α) : Plays task describe ref declare s [] (pure a) :=
  .done (.refl s)

theorem plays_throw {e : Stop} (he : Excused task describe ref s.session s e) (calls : List Call) :
    Plays task describe ref declare s calls (throw e : Run σ α) :=
  .here (.refl s) (.refl s) he

/-- Reading the state first. -/
theorem plays_get_bind {calls : List Call} {next : State σ → Run σ β}
    (hnext : Plays task describe ref declare s calls (next s)) :
    Plays task describe ref declare s calls (get >>= next) :=
  hnext

theorem plays_modify {f : State σ → State σ} (hf : books (f s) = books s)
    (hregistry : (f s).registry = s.registry) :
    Plays task describe ref declare s [] (modify f : Run σ PUnit) :=
  .done (.noted hf hregistry)

/-- What the first run hands to the rest is said by how it steps. -/
theorem plays_bind {c d : List Call} {run : Run σ α} {next : α → Run σ β}
    {P : α → State σ → Prop} (hsteps : Steps s run P)
    (hrun : Plays task describe ref declare s c run)
    (hnext : ∀ a s', WellFormed s' → Grows s s' → P a s' →
      Plays task describe ref declare s' d (next a)) :
    Plays task describe ref declare s (c ++ d) (run >>= next) := by
  unfold Plays Ensures at hrun ⊢
  cases hr : run s with
  | ok a t =>
    rw [hr] at hrun
    rw [run_bind_ok hr]
    obtain ⟨ht, hg, ha⟩ := hsteps.of_ok hr
    exact (hnext a t ht hg ha).mono (fun _ _ h => hrun.append h) fun _ _ h => .prepend hrun h
  | error e t =>
    rw [hr] at hrun
    rw [run_bind_error hr]
    exact hrun.append

theorem places_bind {c d : List Call} {run : Run σ α} {next : α → Run σ β}
    {P : α → State σ → Prop} (hsteps : Steps s run P)
    (hrun : Plays task describe ref declare s c run)
    (hnext : ∀ a s', WellFormed s' → Grows s s' → P a s' →
      Places task describe ref declare s' d (next a)) :
    Places task describe ref declare s (c ++ d) (run >>= next) := by
  unfold Plays Ensures at hrun
  unfold Places Ensures
  cases hr : run s with
  | ok a t =>
    rw [hr] at hrun
    rw [run_bind_ok hr]
    obtain ⟨ht, hg, ha⟩ := hsteps.of_ok hr
    exact (hnext a t ht hg ha).mono (fun _ _ ⟨v, hv, hend⟩ => ⟨v, hrun.append hv, hend⟩)
      fun _ _ h => .prepend hrun h
  | error e t =>
    rw [hr] at hrun
    rw [run_bind_error hr]
    exact hrun.append

theorem Plays.places {calls : List Call} {run : Run σ α}
    (h : Plays task describe ref declare s calls run) :
    Places task describe ref declare s calls run :=
  Ensures.mono h (fun _ s' hs' => ⟨s', hs', .inl rfl⟩) fun _ _ he => he

/-- More is said of what a run returns. -/
theorem Steps.with {run : Run σ α} {P Q : α → State σ → Prop} (h : Steps s run P)
    (hQ : ∀ a s', run s = .ok a s' → P a s' → Q a s') : Steps s run Q := by
  unfold Steps Ensures at h ⊢
  cases hr : run s with
  | ok a s' =>
    rw [hr] at h
    exact ⟨h.1, h.2.1, hQ a s' hr h.2.2⟩
  | error e s' =>
    rw [hr] at h
    exact h

end Resolver

end NativeTypes
