/-
NativeTypes.Proofs.Resolver.Exchanged — a resolver does not notice that its
source is exchanged for another one, as long as the two answer alike.

Most of what is proved of resolvers is proved for sources that answer from a
description. A source need not do so: what it says about a reference may depend
on what it was asked before, because it hands out references of its own in its
answers. Then it is compared with a source of the same state that does describe
(`Exchanges`). The two have to answer alike about the references that are known
at the time, and a resolver that is asked for a known reference has to come
upon known ones only: the target of a type is known once the type was looked
up, and all else that a type refers to is known at any time. Then a request
gives the same result and leaves the same state with both
(`Exchanges.resolve_eq`), so what holds for the source that describes holds for
the other one.

The proof goes through the functions that declare and define. All they do with
the source themselves is to look a reference up, so each needs an equation only
for the references that it declares, in the states in which it declares them
(`Good`). Such an equation is not one of functions: two runs are equal in a
state, and behind the first part of a run the second part has to be compared in
the state that the first leaves. `run_bind_congr` is the rule for that, and it
is why every lemma needs to know that good states lead to good states
(`good_of_plays`, `good_of_declare`).

That they do is not shown again function by function. Goodness is what `Asking`
keeps, so it follows from the edits and calls that a run plays (`Plays`), for
the describing source alone: the state of the run with the other source is the
same one.
-/
import NativeTypes.Proofs.Resolver.Chains

namespace NativeTypes

/-- The source with other look-ups. -/
def Source.lookingUp {σ : Type} (source : Source σ)
    (lookup : σ → String → Ref → Except SourceFault (Option Shape) × σ) : Source σ :=
  { source with lookup }

/-- What a type refers to besides its target. -/
def Shape.others (shape : Shape) : List Ref :=
  shape.underlying.toList ++ shape.result.toList ++ shape.parameters ++ shape.partRefs

namespace Resolver

variable {σ α β : Type}

/-- With other look-ups the source describes, and it answers alike about what is known; who starts
from known references comes upon known ones. -/
structure Exchanges (source : Source σ)
    (lookup : σ → String → Ref → Except SourceFault (Option Shape) × σ) (module : String)
    (describe : Description) (valid : σ → Prop)
    (J : σ → Assoc Ref (Option Shape) → Assoc Handle Shape → Prop) (knows : σ → Ref → Prop) :
    Prop where
  describes : Describes ⟨source.lookingUp lookup, module⟩ describe valid
  asking : Asking ⟨source.lookingUp lookup, module⟩ describe valid J
  same : ∀ {a m p ref}, J a m p → knows a ref → source.lookup a module ref = lookup a module ref
  lost : ∀ {a ref fault}, valid a → (lookup a module ref).1 = .error fault →
    (source.lookup a module ref).1 = .error fault
  polled : ∀ {a ref}, knows a ref → knows (source.stopRequested a).2 ref
  name : ∀ a text, knows a (.name text)
  target : ∀ {a m p ref shape r}, J a m p → m.get? ref = some (some shape) →
    shape.target = some r → knows a r
  others : ∀ {ref shape r} a, describe ref = some shape → r ∈ shape.others → knows a r
  placed : ∀ {a m p h shape}, J a m p → p.get? h = some shape → ∃ ref, describe ref = some shape

/-- A well-formed state in which what is asked for is as it should be. -/
structure Good (J : σ → Assoc Ref (Option Shape) → Assoc Handle Shape → Prop) (s : State σ) :
    Prop where
  wellFormed : WellFormed s
  holds : J s.session s.shapes s.placed

/-- Two runs of two parts are equal in a state if the first parts are, and the second parts are
where they begin. -/
theorem run_bind_congr {run run' : Run σ α} {next next' : α → Run σ β} {s : State σ}
    (hrun : run s = run' s) (hnext : ∀ a t, run' s = .ok a t → next a t = next' a t) :
    (run >>= next) s = (run' >>= next') s := by
  cases hr : run' s with
  | ok a t =>
    rw [run_bind_ok (hrun.trans hr), run_bind_ok hr]
    exact hnext a t hr
  | error e t => rw [run_bind_error (hrun.trans hr), run_bind_error hr]

/-- Asking depends on the poll and on the look-up only. -/
theorem query_congr {task task' : Task σ} {ref : Ref} {s : State σ}
    (hmodule : task.module = task'.module)
    (hpoll : task.source.stopRequested = task'.source.stopRequested)
    (hlookup : task.source.lookup (task'.source.stopRequested s.session).2 task.module ref =
      task'.source.lookup (task'.source.stopRequested s.session).2 task'.module ref) :
    query task ref s = query task' ref s := by
  have hcheck : checkCancelled task = checkCancelled task' := by
    unfold checkCancelled
    rw [hmodule, hpoll]
  have hstop : lookupStop task ref = lookupStop task' ref := by
    funext fault
    unfold lookupStop
    rw [hmodule]
  unfold query
  simp only [run_get_bind]
  cases s.shapes.get? ref with
  | some shape => rfl
  | none =>
    refine run_bind_congr (by rw [hcheck]) fun _ t hrun => ?_
    rw [checkCancelled_run] at hrun
    split at hrun
    · cases hrun
    · cases hrun
      simp only [run_get_bind, run_modify_bind, hlookup, hstop]

/-- Duplicate members are reported under the module's name; no source is asked. -/
theorem distinctMembers_congr {task task' : Task σ} (hmodule : task.module = task'.module) :
    distinctMembers task = distinctMembers task' := by
  funext owner seen members
  induction members generalizing seen with
  | nil => rfl
  | cons m rest ih => simp only [distinctMembers, hmodule, ih]

/-- Suffixes ask the source for the size of pointers and for nothing else. -/
theorem applySuffixes_congr (task task' : Task σ) (hmodule : task.module = task'.module)
    (hpointer : pointer task = pointer task') :
    applySuffixes task = applySuffixes task' := by
  have harray : array task = array task' := by
    unfold array ensure register
    rw [hmodule]
  funext h suffixes
  induction suffixes generalizing h with
  | nil => rfl
  | cons suffix rest ih =>
    have hfirst : applySuffix task h suffix = applySuffix task' h suffix := by
      cases suffix <;> simp only [applySuffix, harray, hpointer]
    simp only [applySuffixes, hfirst, ih]

/-- What is handed out is the shape that an aggregate was placed with. -/
theorem placed_of_takeShape {h : Handle} {shape : Shape} {s s' : State σ}
    (hrun : takeShape h s = .ok shape s') : s.placed.get? h = some shape := by
  unfold takeShape at hrun
  rw [run_get_bind] at hrun
  cases hget : s.placed.get? h with
  | none =>
    simp only [hget] at hrun
    cases hrun
  | some found =>
    simp only [hget] at hrun
    cases hmem : s.placeholders.contains h with
    | false =>
      rw [hmem] at hrun
      cases hrun
    | true =>
      rw [hmem] at hrun
      cases hrun
      rfl

namespace Exchanges

variable {source : Source σ} {lookup : σ → String → Ref → Except SourceFault (Option Shape) × σ}
  {module : String} {describe : Description} {valid : σ → Prop}
  {J : σ → Assoc Ref (Option Shape) → Assoc Handle Shape → Prop} {knows : σ → Ref → Prop}
  (hx : Exchanges source lookup module describe valid J knows) {s t : State σ} {ref : Ref}

/-! ## 1. Look-ups

The two sources are polled alike, since they are one source but for the look-ups, and they answer
alike about what is known. -/

section

include hx

/-- Asking about a known reference gives the same answer. -/
theorem query_eq (hs : Good J s) (hknows : knows s.session ref) :
    query ⟨source, module⟩ ref s = query ⟨source.lookingUp lookup, module⟩ ref s :=
  query_congr rfl rfl (hx.same (hx.asking.polled hs.holds) (hx.polled hknows))

/-- What is right stays right while quiet edits and calls are made. -/
theorem good_of_plays (declare : Ref → Run σ Handle) (hkeeps : Asking.Keeps J declare)
    (ref : Ref) {calls : List Call} {run : Run σ α} {P : α → State σ → Prop} {a : α}
    (hs : Good J s) (hsteps : Steps s run P)
    (hplays : Plays ⟨source.lookingUp lookup, module⟩ describe ref declare s calls run)
    (hrun : run s = .ok a t) : Good J t :=
  ⟨(hsteps.of_ok hrun).1, hx.asking.trace hkeeps (hplays.of_ok hrun) hs.holds⟩

/-- After asking, the answer is remembered, and its target is known. -/
theorem good_of_query (hs : Good J s) (hnormal : IsNormal ref) {answer : Option Shape}
    (hrun : query ⟨source.lookingUp lookup, module⟩ ref s = .ok answer t) :
    Good J t ∧ t.shapes.get? ref = some answer ∧ answer = describe ref ∧
      ∀ shape r, answer = some shape → shape.target = some r → knows t.session r := by
  have ht : Good J t := hx.good_of_plays (fun _ => throw .tooDeep) (fun _ _ _ hs => hs) ref hs
    (steps_query _ hs.wellFormed ref) (plays_query hnormal) hrun
  have hknown := ((steps_query _ hs.wellFormed ref).of_ok hrun).2.2
  refine ⟨ht, hknown, eq_of_query hx.describes (hx.asking.truthful hs.holds) hrun, ?_⟩
  rintro shape r rfl htarget
  exact hx.target ht.holds hknown htarget

end

/-! ## 2. Declaring

Given two ways to declare that agree on known references in good states, each function agrees on
what is made of known references. -/

section

variable {declare declare' : Ref → Run σ Handle}
  (hdeclare : Declares declare') (hkeeps : Asking.Keeps J declare')
  (hsame : ∀ ref s, Good J s → knows s.session ref → declare ref s = declare' ref s)

include hdeclare hkeeps in
/-- Declaring a reference leads to a good state. -/
theorem good_of_declare (hs : Good J s) {h : Handle} (hrun : declare' ref s = .ok h t) : Good J t :=
  ⟨((hdeclare s ref hs.wellFormed).of_ok hrun).1,
    (hkeeps ref s hs.wellFormed hs.holds).of_ok hrun⟩

include hsame

include hdeclare hkeeps in
/-- References that are known at any time stay known while the others are declared. -/
theorem declareAll_eq (refs : List Ref) (hs : Good J s)
    (hrefs : ∀ a, ∀ r ∈ refs, knows a r) :
    declareAll declare refs s = declareAll declare' refs s := by
  induction refs generalizing s with
  | nil => rfl
  | cons r rest ih =>
    refine run_bind_congr (hsame r s hs (hrefs _ r List.mem_cons_self)) fun h t hrun => ?_
    have ht := good_of_declare hdeclare hkeeps hs hrun
    exact run_bind_congr (ih ht fun a x hx => hrefs a x (List.mem_cons_of_mem _ hx))
      fun _ _ _ => rfl

/-- What is open is not a matter of the source. -/
theorem withOpenAlias_eq (label : String) (hs : Good J s) (hknows : knows s.session ref) :
    withOpenAlias label (declare ref) s = withOpenAlias label (declare' ref) s := by
  have hw := hs.wellFormed
  have hopen : Good J { s with openAliases := label :: s.openAliases } :=
    ⟨⟨⟨hw.coherent, hw.registered, hw.parts, hw.below, hw.keyBuilt, hw.declared⟩, hw.placed⟩,
      hs.holds⟩
  unfold withOpenAlias
  rw [hsame ref _ hopen hknows]

/-- The target is known because the typedef was looked up. -/
theorem declareAlias_eq (label : String) {shape : Shape} (hs : Good J s)
    (htarget : ∀ r, shape.target = some r → knows s.session r) :
    declareAlias ⟨source, module⟩ declare label shape s =
      declareAlias ⟨source.lookingUp lookup, module⟩ declare' label shape s := by
  unfold declareAlias
  cases hget : shape.target with
  | none => rfl
  | some target =>
    simp only [run_get_bind]
    split
    · rfl
    · exact run_bind_congr (withOpenAlias_eq hsame label hs (htarget _ hget)) fun _ _ _ => rfl

/-- The underlying type is known at any time. -/
theorem declareEnumeration_eq {shape : Shape} (hs : Good J s)
    (htitled : shape.IsTitled) (hkind : shape.kind = .enumeration)
    (hothers : ∀ a, ∀ r ∈ shape.others, knows a r) :
    declareEnumeration ⟨source, module⟩ declare shape s =
      declareEnumeration ⟨source.lookingUp lookup, module⟩ declare' shape s := by
  have hmembers : distinctMembers ⟨source, module⟩ =
      distinctMembers ⟨source.lookingUp lookup, module⟩ := distinctMembers_congr rfl
  unfold declareEnumeration
  rw [hmembers, run_bind_ok (nameOf_run htitled (by simp [hkind])),
    run_bind_ok (nameOf_run htitled (by simp [hkind]))]
  refine run_bind_congr rfl fun key t hkey => ?_
  obtain ⟨-, rfl⟩ := namedKey_eq_ok hkey
  simp only [run_get_bind]
  cases t.registry.get? key with
  | some h => rfl
  | none =>
    cases hunderlying : shape.underlying with
    | none => rfl
    | some r =>
      exact run_bind_congr (hsame r _ hs (hothers _ r (by simp [Shape.others, hunderlying])))
        fun _ _ _ => rfl

include hx hdeclare hkeeps

/-- So are result and parameters. -/
theorem declareFunction_eq {shape : Shape} (hs : Good J s) (hknown : Knows s ref shape)
    (hkind : shape.kind = .function) (hothers : ∀ a, ∀ r ∈ shape.others, knows a r) :
    declareFunction ⟨source, module⟩ declare shape s =
      declareFunction ⟨source.lookingUp lookup, module⟩ declare' shape s := by
  have hparameters : ∀ t, Good J t → declareAll declare shape.parameters t =
      declareAll declare' shape.parameters t := fun t ht =>
    declareAll_eq hdeclare hkeeps hsame _ ht fun a r hr => hothers a r (by simp [Shape.others, hr])
  unfold declareFunction
  cases hresult : shape.result with
  | none =>
    refine run_bind_congr rfl fun h t hrun => ?_
    have ht : Good J t := hx.good_of_plays declare' hkeeps (.id 0) hs
      (steps_primitive _ hs.wellFormed ⟨ref, shape, hknown, .result hkind hresult⟩)
      (plays_primitive _) hrun
    exact run_bind_congr (hparameters t ht) fun _ _ _ => rfl
  | some r =>
    refine run_bind_congr (hsame r s hs (hothers _ r (by simp [Shape.others, hresult])))
      fun h t hrun => ?_
    exact run_bind_congr (hparameters t (good_of_declare hdeclare hkeeps hs hrun)) fun _ _ _ => rfl

/-- Template arguments are names, which are known. -/
theorem declareArguments_eq (arguments : List Argument) (hs : Good J s) :
    declareArguments declare arguments s = declareArguments declare' arguments s := by
  induction arguments generalizing s with
  | nil => rfl
  | cons argument rest ih =>
    cases argument with
    | number n => exact run_bind_congr (ih hs) fun _ _ _ => rfl
    | type u =>
      refine run_bind_congr rfl fun _ t hneed => ?_
      obtain ⟨rfl, -⟩ := needWritable_eq_ok hneed
      refine run_bind_congr (hsame _ _ hs (hx.name _ _)) fun h t hrun => ?_
      exact run_bind_congr (ih (good_of_declare hdeclare hkeeps hs hrun)) fun _ _ _ => rfl

/-- So a template can be declared in both. -/
theorem declareAggregate_eq {shape : Shape} (hs : Good J s) (htitled : shape.IsTitled)
    (hkind : shape.kind ≠ .primitive ∧ shape.kind ≠ .unsupported) :
    declareAggregate ⟨source, module⟩ declare shape s =
      declareAggregate ⟨source.lookingUp lookup, module⟩ declare' shape s := by
  unfold declareAggregate
  rw [run_bind_ok (nameOf_run htitled hkind), run_bind_ok (nameOf_run htitled hkind)]
  cases (TypeName.parsePlain? shape.title).filter TypeName.isTemplate with
  | none => rfl
  | some t =>
    exact run_bind_congr (hx.declareArguments_eq hdeclare hkeeps hsame t.arguments hs)
      fun _ _ _ => rfl

/-- A shape is declared alike if its references are known. -/
theorem declareShape_eq (label : String) {shape : Shape} (hs : Good J s)
    (hknown : Knows s ref shape) (htitled : shape.IsTitled)
    (htarget : ∀ r, shape.target = some r → knows s.session r)
    (hothers : ∀ a, ∀ r ∈ shape.others, knows a r) :
    declareShape ⟨source, module⟩ declare label (some shape) s =
      declareShape ⟨source.lookingUp lookup, module⟩ declare' label (some shape) s := by
  unfold declareShape
  simp only
  cases hkind : shape.kind with
  | primitive => rfl
  | unsupported => rfl
  | pointer | array =>
    cases hget : shape.target with
    | none => rfl
    | some r => exact run_bind_congr (hsame r s hs (htarget r hget)) fun _ _ _ => rfl
  | typedef => exact declareAlias_eq hsame label hs htarget
  | enumeration => exact declareEnumeration_eq hsame hs htitled hkind hothers
  | function => exact hx.declareFunction_eq hdeclare hkeeps hsame hs hknown hkind hothers
  | struct | union =>
    exact hx.declareAggregate_eq hdeclare hkeeps hsame hs htitled (by simp [hkind])

/-- What is asked about is known; then its target is. -/
theorem declareDescribed_eq (label : String) (hs : Good J s) (hnormal : IsNormal ref)
    (hknows : knows s.session ref) :
    declareDescribed ⟨source, module⟩ declare label ref s =
      declareDescribed ⟨source.lookingUp lookup, module⟩ declare' label ref s := by
  refine run_bind_congr (hx.query_eq hs hknows) fun answer t hquery => ?_
  obtain ⟨ht, hknown, hanswer, htarget⟩ := hx.good_of_query hs hnormal hquery
  cases answer with
  | none => rfl
  | some shape =>
    exact hx.declareShape_eq hdeclare hkeeps hsame label ht hknown
      (hx.describes.titled ref shape hanswer.symm) (fun r => htarget shape r rfl)
      fun a r hr => hx.others a hanswer.symm hr

/-- Names lead to names. -/
theorem declareName_eq (text : String) (hs : Good J s) :
    declareName ⟨source, module⟩ declare text s =
      declareName ⟨source.lookingUp lookup, module⟩ declare' text s := by
  unfold declareName
  cases hparse : TypeName.parse text with
  | error e => rfl
  | ok u =>
    refine run_bind_congr rfl fun _ t hneed => ?_
    obtain ⟨rfl, hwritable⟩ := needWritable_eq_ok hneed
    split
    · refine run_bind_congr (hsame _ _ hs (hx.name _ _)) fun h t _ => ?_
      rw [applySuffixes_congr ⟨source, module⟩ ⟨source.lookingUp lookup, module⟩ rfl rfl]
    · split
      · exact hsame _ _ hs (hx.name _ _)
      · rename_i hsuffixes hformat
        have hself : u.withoutSuffixes = u := by
          cases u
          obtain rfl : _ = [] := by simpa using hsuffixes
          rfl
        refine hx.declareDescribed_eq hdeclare hkeeps hsame text hs ?_ (hx.name _ _)
        rw [hself] at hwritable
        simp [IsNormal, TypeName.normalize, hparse, TypeName.written?, hwritable,
          not_not.mp hformat]

/-- What was declared before is returned in both. -/
theorem declareOnce_eq (hs : Good J s) (hknows : knows s.session ref) :
    declareOnce ⟨source, module⟩ declare ref s =
      declareOnce ⟨source.lookingUp lookup, module⟩ declare' ref s := by
  unfold declareOnce
  simp only [run_get_bind]
  cases s.declared.get? ref with
  | some h => rfl
  | none =>
    refine run_bind_congr ?_ fun _ _ _ => rfl
    cases ref with
    | name text => exact hx.declareName_eq hdeclare hkeeps hsame text hs
    | id n => exact hx.declareDescribed_eq hdeclare hkeeps hsame _ hs trivial hknows

end

include hx

/-- **Known references are declared alike.** -/
theorem declare_eq (n : Nat) (ref : Ref) (s : State σ) (hs : Good J s)
    (hknows : knows s.session ref) :
    declare ⟨source, module⟩ n ref s = declare ⟨source.lookingUp lookup, module⟩ n ref s := by
  induction n generalizing ref s with
  | zero => rfl
  | succ n ih =>
    exact hx.declareOnce_eq (declares_declare _ n) (hx.asking.keeps hx.describes n) ih hs hknows

/-! ## 3. Defining -/

/-- What is asked for is as it should be after a row of moves. -/
theorem holds_of_moved {n : Nat} (hs : Good J s)
    (h : Moved (declare ⟨source.lookingUp lookup, module⟩ n) s t) :
    J t.session t.shapes t.placed := by
  induction h with
  | refl => exact hs.holds
  | tail _ hlast ih =>
    cases hlast with
    | declared hw hrun => exact (hx.asking.keeps hx.describes n _ _ hw ih).of_ok hrun
    | stopped hw hrun => exact (hx.asking.keeps hx.describes n _ _ hw ih).of_error hrun
    | silent hsilent =>
      have hknown := hsilent.known_eq
      simp only [known, Prod.mk.injEq] at hknown
      obtain ⟨hsession, hshapes, -, -, -, -, hplaced⟩ := hknown
      rw [hsession, hshapes, hplaced]
      exact ih

theorem good_of_moves {n : Nat} {m : String} {run : Run σ α} {P : α → State σ → Prop} {a : α}
    (hs : Good J s) (htelling : Telling m s run P)
    (hmoves : Moves (declare ⟨source.lookingUp lookup, module⟩ n) s run) (hrun : run s = .ok a t) :
    Good J t :=
  ⟨(htelling.of_ok hrun).1.1, hx.holds_of_moved hs (hmoves.of_ok hrun)⟩

/-- Aggregates are defined alike. -/
def DefinesAlike (J : σ → Assoc Ref (Option Shape) → Assoc Handle Shape → Prop)
    (define define' : Handle → Run σ Unit) : Prop :=
  ∀ h s, Good J s → define h s = define' h s

omit hx in
theorem defineValue_eq {define define' : Handle → Run σ Unit}
    (hdefine : DefinesAlike J define define') (h : Handle) (hs : Good J s) :
    defineValue define h s = defineValue define' h s := by
  unfold defineValue
  simp only [run_get_bind]
  cases s.graph.get (innermost s.graph h) with
  | aggregate a =>
    dsimp only
    split
    · exact hdefine _ _ hs
    · rfl
  | _ => rfl

section

variable {depth n : Nat} (hdefine : DefinesAlike J (define ⟨source, module⟩ depth n)
  (define ⟨source.lookingUp lookup, module⟩ depth n))

include hdefine

/-- A part that is known is declared and defined alike. -/
theorem definePart_eq (hs : Good J s) (hknows : ∀ a, knows a ref) :
    definePart (declare ⟨source, module⟩ depth) (define ⟨source, module⟩ depth n) ref s =
      definePart (declare ⟨source.lookingUp lookup, module⟩ depth)
        (define ⟨source.lookingUp lookup, module⟩ depth n) ref s := by
  refine run_bind_congr (hx.declare_eq depth ref s hs (hknows _)) fun h t hrun => ?_
  have ht : Good J t := good_of_declare (declares_declare _ depth)
    (hx.asking.keeps hx.describes depth) hs hrun
  exact run_bind_congr (defineValue_eq hdefine h ht) fun _ _ _ => rfl

/-- The types of bases are known at any time. -/
theorem defineBases_eq (owner : Handle) (bases : List BaseShape) (hs : Good J s)
    (hknows : ∀ a, ∀ b ∈ bases, knows a b.type) :
    defineBases (declare ⟨source, module⟩ depth) (define ⟨source, module⟩ depth n) owner bases s =
      defineBases (declare ⟨source.lookingUp lookup, module⟩ depth)
        (define ⟨source.lookingUp lookup, module⟩ depth n) owner bases s := by
  induction bases generalizing s with
  | nil => rw [defineBases, defineBases]
  | cons b rest ih =>
    have hfirst := hx.definePart_eq hdefine hs fun a => hknows a b List.mem_cons_self
    rw [defineBases, defineBases]
    refine run_bind_congr hfirst fun type t hrun => ?_
    refine run_bind_congr rfl fun _ u hchange => ?_
    have hone : defineBases (declare ⟨source.lookingUp lookup, module⟩ depth)
        (define ⟨source.lookingUp lookup, module⟩ depth n) owner [b] s = .ok ⟨⟩ u := by
      rw [defineBases, run_bind_ok hrun, run_bind_ok hchange]
      rfl
    have hu : Good J u := hx.good_of_moves hs
      (telling_defineBases _ (declares_declare _ depth) (definesTelling_define _ depth n)
        hs.wellFormed owner [b])
      (moves_defineBases _ (declares_declare _ depth) (definesTelling_define _ depth n)
        (fun _ _ hw => moves_define _ depth n _ hw) hs.wellFormed owner [b]) hone
    exact ih hu fun a c hc => hknows a c (List.mem_cons_of_mem _ hc)

/-- So are those of fields. -/
theorem defineFields_eq (owner : Handle) (fields : List FieldShape) (hs : Good J s)
    (hknows : ∀ a, ∀ f ∈ fields, knows a f.type) :
    defineFields (declare ⟨source, module⟩ depth) (define ⟨source, module⟩ depth n) owner fields s =
      defineFields (declare ⟨source.lookingUp lookup, module⟩ depth)
        (define ⟨source.lookingUp lookup, module⟩ depth n) owner fields s := by
  induction fields generalizing s with
  | nil => rw [defineFields, defineFields]
  | cons f rest ih =>
    have hfirst := hx.definePart_eq hdefine hs fun a => hknows a f List.mem_cons_self
    rw [defineFields, defineFields]
    refine run_bind_congr hfirst fun type t hrun => ?_
    refine run_bind_congr rfl fun _ u hchange => ?_
    have hone : defineFields (declare ⟨source.lookingUp lookup, module⟩ depth)
        (define ⟨source.lookingUp lookup, module⟩ depth n) owner [f] s = .ok ⟨⟩ u := by
      rw [defineFields, run_bind_ok hrun, run_bind_ok hchange]
      rfl
    have hu : Good J u := hx.good_of_moves hs
      (telling_defineFields _ (declares_declare _ depth) (definesTelling_define _ depth n)
        hs.wellFormed owner [f])
      (moves_defineFields _ (declares_declare _ depth) (definesTelling_define _ depth n)
        (fun _ _ hw => moves_define _ depth n _ hw) hs.wellFormed owner [f]) hone
    exact ih hu fun a c hc => hknows a c (List.mem_cons_of_mem _ hc)

/-- The parts of a described type are known. -/
theorem defineBody_eq (h : Handle) {shape : Shape} (hdescribed : describe ref = some shape)
    (hs : Good J s) :
    defineBody ⟨source, module⟩ (declare ⟨source, module⟩ depth) (define ⟨source, module⟩ depth n)
        h shape s =
      defineBody ⟨source.lookingUp lookup, module⟩ (declare ⟨source.lookingUp lookup, module⟩ depth)
        (define ⟨source.lookingUp lookup, module⟩ depth n) h shape s := by
  have hparts (a : σ) (r : Ref) (hr : r ∈ shape.partRefs) : knows a r :=
    hx.others a hdescribed (by simp [Shape.others, hr])
  rw [defineBody, defineBody]
  refine run_bind_congr (hx.defineBases_eq hdefine h shape.bases hs fun a b hb =>
    hparts a _ (by simp [Shape.partRefs, List.mem_map_of_mem hb])) fun _ t hrun => ?_
  have ht : Good J t := hx.good_of_moves hs
    (telling_defineBases _ (declares_declare _ depth) (definesTelling_define _ depth n)
      hs.wellFormed h shape.bases)
    (moves_defineBases _ (declares_declare _ depth) (definesTelling_define _ depth n)
      (fun _ _ hw => moves_define _ depth n _ hw) hs.wellFormed h shape.bases) hrun
  refine run_bind_congr (hx.defineFields_eq hdefine h shape.fields ht fun a f hf =>
    hparts a _ (by simp [Shape.partRefs, List.mem_map_of_mem hf])) fun _ _ _ => ?_
  rw [checkLayout, checkLayout]

/-- The shape that an aggregate is defined by was given in an answer, so what it refers to is
known. -/
theorem defineOnce_eq (h : Handle) (hs : Good J s) :
    defineOnce ⟨source, module⟩ (declare ⟨source, module⟩ depth) (define ⟨source, module⟩ depth n)
        h s =
      defineOnce ⟨source.lookingUp lookup, module⟩ (declare ⟨source.lookingUp lookup, module⟩ depth)
        (define ⟨source.lookingUp lookup, module⟩ depth n) h s := by
  have hbody : ∀ u, Good J u → (do
      let shape ← takeShape h
      whileDefining h (defineCaught ⟨source, module⟩ (declare ⟨source, module⟩ depth)
        (define ⟨source, module⟩ depth n) h shape)) u = (do
      let shape ← takeShape h
      whileDefining h (defineCaught ⟨source.lookingUp lookup, module⟩
        (declare ⟨source.lookingUp lookup, module⟩ depth)
        (define ⟨source.lookingUp lookup, module⟩ depth n) h shape)) u := by
    intro u hu
    refine run_bind_congr rfl fun shape t hrun => ?_
    have ht : Good J t := hx.good_of_moves (n := depth) (m := module) hu
      (telling_takeShape hu.wellFormed h) (moves_takeShape h) hrun
    obtain ⟨other, hdescribed⟩ := hx.placed hu.holds (placed_of_takeShape hrun)
    have hentered : Good J { t with defining := t.defining ++ [h] } :=
      ⟨(wellFormed_tells_of_eq module ht.wellFormed { t with defining := t.defining ++ [h] } rfl).1,
        ht.holds⟩
    have hcycle : meetCycle (⟨source, module⟩ : Task σ) =
        meetCycle ⟨source.lookingUp lookup, module⟩ := rfl
    unfold whileDefining defineCaught
    rw [hx.defineBody_eq hdefine h hdescribed hentered, hcycle]
  unfold defineOnce
  simp only [run_get_bind]
  split
  · refine run_bind_congr rfl fun path t _ => ?_
    rw [run_bind_error (run_throw _), run_bind_error (run_throw _)]
  · exact hbody s hs

end

/-- By induction on how many aggregates may be inside each other. -/
theorem definesAlike_define (depth n : Nat) :
    DefinesAlike J (define ⟨source, module⟩ depth n)
      (define ⟨source.lookingUp lookup, module⟩ depth n) := by
  induction n with
  | zero =>
    intro h s _
    rw [define, define]
  | succ n ih =>
    intro h s hs
    rw [define, define]
    exact hx.defineOnce_eq ih h hs

/-- By induction on how many aggregates may be taken off the worklist. -/
theorem drain_eq (depth n : Nat) (hs : Good J s) :
    drain ⟨source, module⟩ depth n s = drain ⟨source.lookingUp lookup, module⟩ depth n s := by
  induction n generalizing s with
  | zero => rw [drain, drain]
  | succ n ih =>
    rw [drain, drain]
    simp only [run_get_bind]
    cases s.worklist with
    | nil => rfl
    | cons h rest =>
      have hpopped : Good J { s with worklist := rest } :=
        ⟨(wellFormed_tells_of_eq module hs.wellFormed { s with worklist := rest } rfl).1, hs.holds⟩
      simp only [run_modify_bind, run_get_bind]
      split
      · refine run_bind_congr (hx.definesAlike_define depth depth h _ hpopped) fun _ t hrun => ?_
        exact ih (hx.good_of_moves hpopped
          (definesTelling_define _ depth depth _ h hpopped.wellFormed)
          (moves_define _ depth depth h hpopped.wellFormed) hrun)
      · exact ih hpopped

/-! ## 4. Requests

A request is a declaration, the definitions that it leaves to do, and nothing else that asks. -/

/-- **A request for a known reference does not notice which source it is.** -/
theorem resolve_eq (limits : Limits) (hs : Good J s) (hknows : knows s.session ref) :
    resolve ⟨source, module⟩ limits ref s =
      resolve ⟨source.lookingUp lookup, module⟩ limits ref s := by
  rw [resolve, resolve]
  refine run_bind_congr (hx.declare_eq limits.depth ref s hs hknows) fun h t hrun => ?_
  have ht : Good J t := good_of_declare (declares_declare _ limits.depth)
    (hx.asking.keeps hx.describes limits.depth) hs hrun
  exact run_bind_congr (hx.drain_eq limits.depth limits.total ht) fun _ _ _ => rfl

/-- What excuses a stop with the other look-ups excuses it. -/
theorem pardoned {roots : List Ref} {e : Stop}
    (h : Pardoned ⟨source.lookingUp lookup, module⟩ describe valid roots e s) :
    Pardoned ⟨source, module⟩ describe valid roots e s := by
  cases h with
  | layout ha hfault hlong => exact .layout ha hfault hlong
  | declaring hroot hasks hvalid he =>
    refine .declaring hroot hasks hvalid ?_
    cases he with
    | lost hlost => exact .lost (hx.lost hvalid hlost)
    | unsized hsize => exact .unsized hsize
    | cancelled hstop => exact .cancelled hstop
    | unwritable hlong => exact .unwritable hlong
    | taken hshape hkind hget => exact .taken hshape hkind hget

end Exchanges

/-- What a request for one of these references leads to, whether it returns or stops. -/
inductive RequestedOf (task : Task σ) (asked : Ref → Prop) (s s' : State σ) : Prop
  | returned {limits : Limits} {ref : Ref} {root : Handle} : asked ref →
      resolve task limits ref s = .ok root s' → RequestedOf task asked s s'
  | stopped {limits : Limits} {ref : Ref} {e : Stop} : asked ref →
      resolve task limits ref s = .error e s' → RequestedOf task asked s s'

/-- A request for one of these references that returned. -/
def ReturnedOf (task : Task σ) (asked : Ref → Prop) (s s' : State σ) : Prop :=
  ∃ limits ref root, asked ref ∧ resolve task limits ref s = .ok root s'

/-- Requests that returned are requests. -/
theorem requestedOf_of_returnedOf {task : Task σ} {asked : Ref → Prop} {s s' : State σ}
    (h : Relation.ReflTransGen (ReturnedOf task asked) s s') :
    Relation.ReflTransGen (RequestedOf task asked) s s' := by
  have hle : ReturnedOf task asked ≤ RequestedOf task asked :=
    fun _ _ ⟨_, _, _, hasked, hrun⟩ => .returned hasked hrun
  exact Relation.ReflTransGen.mono hle s s' h

namespace Exchanges

variable {source : Source σ} {lookup : σ → String → Ref → Except SourceFault (Option Shape) × σ}
  {module : String} {describe : Description} {valid : σ → Prop}
  {J : σ → Assoc Ref (Option Shape) → Assoc Handle Shape → Prop} {knows : σ → Ref → Prop}
  {asked : Ref → Prop} {s t : State σ}

/-- **Requests for known references are requests to a source that describes.** -/
theorem requests (hx : Exchanges source lookup module describe valid J knows)
    (hasked : ∀ ref, asked ref → ∀ a, knows a ref) (hs : Good J s)
    (h : Relation.ReflTransGen (RequestedOf ⟨source, module⟩ asked) s t) :
    Requests ⟨source.lookingUp lookup, module⟩ s t ∧ Good J t := by
  induction h with
  | refl => exact ⟨.refl, hs⟩
  | @tail u t _ hlast ih =>
    obtain ⟨hu, hgood⟩ := ih
    have hone : Requested ⟨source.lookingUp lookup, module⟩ u t := by
      cases hlast with
      | returned href hrun =>
        exact .returned ((hx.resolve_eq _ hgood (hasked _ href _)).symm.trans hrun)
      | stopped href hrun =>
        exact .stopped ((hx.resolve_eq _ hgood (hasked _ href _)).symm.trans hrun)
    exact ⟨hu.tail hone, (hone.wellFormed hgood.wellFormed).1,
      hx.asking.requests hx.describes (.single hone) hgood.wellFormed hgood.holds⟩

/-- Those that return return there. -/
theorem returned (hx : Exchanges source lookup module describe valid J knows)
    (hasked : ∀ ref, asked ref → ∀ a, knows a ref) (hs : Good J s)
    (h : Relation.ReflTransGen (ReturnedOf ⟨source, module⟩ asked) s t) :
    Relation.ReflTransGen (Returned ⟨source.lookingUp lookup, module⟩) s t := by
  induction h with
  | refl => exact .refl
  | @tail u t hfirst hlast ih =>
    obtain ⟨limits, ref, root, href, hrun⟩ := hlast
    have hgood := (hx.requests hasked hs (requestedOf_of_returnedOf hfirst)).2
    exact ih.tail ⟨limits, ref, root, (hx.resolve_eq _ hgood (hasked _ href _)).symm.trans hrun⟩

end Exchanges

end Resolver

end NativeTypes
