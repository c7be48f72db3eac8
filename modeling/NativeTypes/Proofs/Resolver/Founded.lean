/-
NativeTypes.Proofs.Resolver.Founded — what a reference means can be read off
the tables, if the reference does not ask for itself.

A reference that is reached again while it is declared is remembered twice, and
what it meant in between may be known by others (`AsksItself`). All the others
are founded (`Founded`): a name means its base, wrapped by its suffixes; an
array means its element, wrapped by its length; a scalar, a struct and a union
are found under their keys, and the key of a template is made of what its
arguments mean (`ShapeMeans`, `Means`).

What a reference uses so cannot be remembered anew behind its back: whoever is
remembered was not known when its declaration began, and all that became known
since then it asked for (`Founds.reached`). So the user would ask for itself.
References that are told one shape mean one instance then (`ShapeMeans.eq`).

The meaning is read off the tables alone, and not off the run that filled them.
That is what lets two references be compared that were declared in different
requests, by different spellings and in either order: nothing has to be said
about when either was declared, only that both are in the tables now.

The proof goes in three steps. A single declaration leaves what it should in
the tables (`means_of_declareNew`, a case for each kind of shape). Entering a
reference spoils the meaning of none that is founded (`Founded.put`), which is
the step where it matters who asked for whom. And declarations inside each
other compose, by induction on how deeply references are followed
(`founding_declare`), over the trace of the calls that one declaration makes.
-/
import Mathlib.Data.List.Forall2
import NativeTypes.Proofs.Resolver.Plain

namespace NativeTypes.Resolver

variable {σ α : Type} {task : Task σ} {describe : Description} {valid : σ → Prop}
  {declare : Ref → Run σ Handle} {s s' t : State σ} {ref : Ref} {shape : Shape} {h : Handle}

/-! ## 1. What references mean

The relations below take a state and say what its tables lead to. Each has a lemma that a wider
registry keeps it (`mono`), with the entries of the used references as its condition: those are
the only entries of `declared` that a meaning depends on. -/

/-- The reference asks for itself, through whatever it asks for. -/
def AsksItself (describe : Description) (ref : Ref) : Prop :=
  Relation.TransGen (AsksFor describe) ref ref

/-- The part of a key that an argument of a template gives. -/
inductive ArgumentKey (s : State σ) : Argument → KeyArgument → Prop
  | number (n : Int) : ArgumentKey s (.number n) (.number n)
  | type {u : TypeName} {h : Handle} {key : Key} :
      s.declared.get? (.name u.format) = some h → s.registry.keyOf? h = some key →
      ArgumentKey s (.type u) (.key key)

/-- The tables lead from a shape to the instance. What is not supported may have to be named by a
label. -/
def ShapeMeans (s : State σ) (label : String) (shape : Shape) (h : Handle) : Prop :=
  match shape.kind with
  | .primitive => s.registry.get? (.primitive (shape.primitive.getD .void)) = some h
  | .unsupported =>
    s.registry.get? (.named (if shape.name.isEmpty then label else shape.name)) = some h
  | .array => ∀ target, shape.target = some target →
      ∃ e, s.declared.get? target = some e ∧ s.registry.Wraps e [.array shape.length] h
  | .struct | .union =>
    match (TypeName.parsePlain? shape.title).filter TypeName.isTemplate with
    | some t => ∃ keys, List.Forall₂ (ArgumentKey s) t.arguments keys ∧
        s.registry.get? (.mk t.baseName keys) = some h
    | none => s.registry.get? (keyOfName shape.title) = some h
  | .pointer | .typedef | .enumeration | .function => True

/-- The tables lead from the reference to the instance. -/
structure Means (describe : Description) (s : State σ) (ref : Ref) (h : Handle) : Prop where
  spelled : ∀ text u, ref = .name text → ¬IsDescribed ref → TypeName.parse text = .ok u →
    ∃ base, s.declared.get? (.name u.withoutSuffixes.format) = some base ∧
      s.registry.Wraps base u.wrapping h
  shown : ∀ shape, Shows describe ref shape → ShapeMeans s (labelOf ref) shape h

/-- The reference asks for the other one, and so it is said what it means. -/
structure Uses (describe : Description) (ref used : Ref) : Prop where
  asks : AsksFor describe ref used
  kind : ∀ shape, Shows describe ref shape →
    shape.kind = .array ∨ shape.kind = .struct ∨ shape.kind = .union

/-- Every type among the arguments is asked for by its text. -/
theorem mem_argumentCalls {arguments : List Argument} {u : TypeName}
    (hu : Argument.type u ∈ arguments) : Call.to (.name u.format) ∈ argumentCalls arguments := by
  induction arguments with
  | nil => cases hu
  | cons argument rest ih =>
    rcases List.mem_cons.mp hu with rfl | hrest
    · exact List.mem_cons_self
    · cases argument with
      | number n => exact ih hrest
      | type v => exact List.mem_cons_of_mem _ (ih hrest)

/-- And nothing else is asked for on behalf of the arguments. -/
theorem exists_mem_of_argumentCalls {arguments : List Argument} {c : Call}
    (hc : c ∈ argumentCalls arguments) :
    ∃ u, Argument.type u ∈ arguments ∧ c.ref = .name u.format := by
  induction arguments with
  | nil => cases hc
  | cons argument rest ih =>
    have hlater (hc : c ∈ argumentCalls rest) :
        ∃ u, Argument.type u ∈ argument :: rest ∧ c.ref = .name u.format := by
      obtain ⟨u, hu, hr⟩ := ih hc
      exact ⟨u, List.mem_cons_of_mem _ hu, hr⟩
    cases argument with
    | number n => exact hlater hc
    | type v =>
      rcases List.mem_cons.mp hc with rfl | hc
      · exact ⟨v, List.mem_cons_self, rfl⟩
      · exact hlater hc

/-- A template uses the types among its arguments. -/
theorem uses_argument (hshows : Shows describe ref shape)
    (hkind : shape.kind = .struct ∨ shape.kind = .union) {v u : TypeName}
    (hv : (TypeName.parsePlain? shape.title).filter TypeName.isTemplate = some v)
    (hu : Argument.type u ∈ v.arguments) : Uses describe ref (.name u.format) where
  asks := by
    refine ⟨.to (.name u.format), ?_, rfl⟩
    have hcalls : shape.calls (labelOf ref) = argumentCalls (templateArguments shape.title) := by
      rcases hkind with hkind | hkind <;> simp only [Shape.calls, hkind]
    rw [hshows.calls_eq, hcalls, templateArguments, hv]
    exact mem_argumentCalls hu
  kind := fun other hother => by
    obtain rfl : other = shape := Option.some.inj (hother.eq.symm.trans hshows.eq)
    exact .inr hkind

/-- An array uses its element. -/
theorem uses_target (hshows : Shows describe ref shape) (hkind : shape.kind = .array) {target : Ref}
    (htarget : shape.target = some target) : Uses describe ref target where
  asks := ⟨.to target, by simp [hshows.calls_eq, Shape.calls, hkind, htarget], rfl⟩
  kind := fun other hother => by
    obtain rfl : other = shape := Option.some.inj (hother.eq.symm.trans hshows.eq)
    exact .inl hkind

/-- A name that the source is not asked about uses its base, and nothing else. -/
theorem uses_base_iff {text : String} {u : TypeName} {used : Ref}
    (hnot : ¬IsDescribed (.name text)) (hparse : TypeName.parse text = .ok u) :
    Uses describe (.name text) used ↔ used = .name u.withoutSuffixes.format := by
  have hcalls : calls describe (.name text) = [.to (.name u.withoutSuffixes.format)] := by
    by_cases hsuffixes : u.suffixes = []
    · have hself : u.withoutSuffixes = u := by
        cases u
        obtain rfl : _ = [] := hsuffixes
        rfl
      have hformat : u.format ≠ text := fun heq => hnot ⟨u, hparse, hsuffixes, heq⟩
      simp [calls, hparse, hsuffixes, hformat, hself]
    · simp [calls, hparse, hsuffixes]
  constructor
  · rintro ⟨⟨c, hc, rfl⟩, -⟩
    rw [hcalls] at hc
    rw [List.mem_singleton.mp hc]
    rfl
  · rintro rfl
    exact ⟨⟨.to _, by simp [hcalls], rfl⟩, fun shape hshows => absurd hshows.described hnot⟩

/-- The key of an argument stays its key while its type stays declared as the same instance. -/
theorem ArgumentKey.mono {a : Argument} {k : KeyArgument} (ha : ArgumentKey s a k)
    (hregistry : s.registry.Widens s'.registry)
    (hdeclared : ∀ u x, a = .type u → s.declared.get? (.name u.format) = some x →
      s'.declared.get? (.name u.format) = some x) : ArgumentKey s' a k := by
  cases ha with
  | number n => exact .number n
  | type hx hkey => exact .type (hdeclared _ _ rfl hx) (hregistry.keyOf? _ _ hkey)

/-- An argument that is a type has a declared instance, which has a key. -/
theorem exists_argumentKey {arguments : List Argument} {keys : List KeyArgument} {u : TypeName}
    (hkeys : List.Forall₂ (ArgumentKey s) arguments keys) (hu : Argument.type u ∈ arguments) :
    ∃ x key, s.declared.get? (.name u.format) = some x ∧ s.registry.keyOf? x = some key := by
  induction hkeys with
  | nil => cases hu
  | cons hfirst _ ih =>
    rcases List.mem_cons.mp hu with rfl | hrest
    · cases hfirst with
      | type hx hkey => exact ⟨_, _, hx, hkey⟩
    · exact ih hrest

namespace Means

/-- What is used is declared. -/
theorem isSome_declared (hmeans : Means describe s ref h) {used : Ref}
    (huses : Uses describe ref used) : (s.declared.get? used).isSome = true := by
  obtain ⟨c, hc, rfl⟩ := huses.asks
  by_cases hdescribed : IsDescribed ref
  · rw [calls_of_described hdescribed] at hc
    cases hdescribe : describe ref with
    | none =>
      rw [hdescribe] at hc
      cases hc
    | some shape =>
      rw [hdescribe, Option.elim_some] at hc
      have hshows : Shows describe ref shape := ⟨hdescribed, hdescribe⟩
      have hshape := hmeans.shown shape hshows
      rcases huses.kind shape hshows with hkind | hkind | hkind
      · simp only [Shape.calls, hkind] at hc
        obtain ⟨target, htarget, rfl⟩ := List.mem_map.mp hc
        simp only [ShapeMeans, hkind] at hshape
        obtain ⟨e, he, -⟩ := hshape target (Option.mem_toList.mp htarget)
        exact Option.isSome_iff_exists.mpr ⟨e, he⟩
      all_goals
        simp only [Shape.calls, hkind, templateArguments] at hc
        simp only [ShapeMeans, hkind] at hshape
        cases htemplate : (TypeName.parsePlain? shape.title).filter TypeName.isTemplate with
        | none =>
          rw [htemplate] at hc
          cases hc
        | some v =>
          rw [htemplate, Option.elim_some] at hc
          rw [htemplate] at hshape
          obtain ⟨keys, hkeys, -⟩ := hshape
          obtain ⟨u, hu, hr⟩ := exists_mem_of_argumentCalls hc
          obtain ⟨x, -, hx, -⟩ := exists_argumentKey hkeys hu
          exact Option.isSome_iff_exists.mpr ⟨x, hr ▸ hx⟩
  · cases ref with
    | id n => exact absurd trivial hdescribed
    | name text =>
      cases hparse : TypeName.parse text with
      | error e => simp [calls, hparse] at hc
      | ok u =>
        rw [(uses_base_iff hdescribed hparse).mp huses]
        obtain ⟨base, hbase, -⟩ := hmeans.spelled text u rfl hdescribed hparse
        exact Option.isSome_iff_exists.mpr ⟨base, hbase⟩

/-- What is kept of the tables keeps the meaning. -/
theorem mono (hmeans : Means describe s ref h) (hregistry : s.registry.Widens s'.registry)
    (hdeclared : ∀ used x, Uses describe ref used → s.declared.get? used = some x →
      s'.declared.get? used = some x) : Means describe s' ref h where
  spelled := by
    rintro text u rfl hnot hparse
    obtain ⟨base, hbase, hwraps⟩ := hmeans.spelled text u rfl hnot hparse
    exact ⟨base, hdeclared _ _ ((uses_base_iff hnot hparse).mpr rfl) hbase,
      hwraps.widen hregistry⟩
  shown := by
    intro shape hshows
    have hshape := hmeans.shown shape hshows
    unfold ShapeMeans at hshape ⊢
    cases hkind : shape.kind with
    | primitive | unsupported =>
      simp only [hkind] at hshape ⊢
      exact hregistry.get? _ _ hshape
    | array =>
      simp only [hkind] at hshape ⊢
      intro target htarget
      obtain ⟨e, he, hwraps⟩ := hshape target htarget
      exact ⟨e, hdeclared _ _ (uses_target hshows hkind htarget) he, hwraps.widen hregistry⟩
    | struct | union =>
      simp only [hkind] at hshape ⊢
      cases htemplate : (TypeName.parsePlain? shape.title).filter TypeName.isTemplate with
      | none =>
        simp only [htemplate] at hshape ⊢
        exact hregistry.get? _ _ hshape
      | some v =>
        simp only [htemplate] at hshape ⊢
        obtain ⟨keys, hkeys, hget⟩ := hshape
        have huses : ∀ a ∈ v.arguments, ∀ u, a = .type u → Uses describe ref (.name u.format) := by
          rintro _ hu u rfl
          exact uses_argument hshows (by simp [hkind]) htemplate hu
        refine ⟨keys, ?_, hregistry.get? _ _ hget⟩
        refine List.Forall₂.imp ?_ ((List.forall₂_and_left _ _).mpr ⟨huses, hkeys⟩)
        rintro _ _ ⟨hused, ha⟩
        exact ha.mono hregistry fun u x hu => hdeclared _ x (hused u hu)
    | _ => trivial

end Means

/-- The keys of arguments are given by the tables. -/
theorem eq_of_argumentKeys {arguments : List Argument} {keys keys' : List KeyArgument}
    (h : List.Forall₂ (ArgumentKey s) arguments keys)
    (h' : List.Forall₂ (ArgumentKey s) arguments keys') : keys = keys' := by
  induction h generalizing keys' with
  | nil =>
    cases h'
    rfl
  | cons hfirst _ ih =>
    cases h' with
    | cons hfirst' hrest' =>
      rw [ih hrest']
      cases hfirst with
      | number n =>
        cases hfirst'
        rfl
      | type hx hkey =>
        cases hfirst' with
        | type hx' hkey' =>
          cases hx.symm.trans hx'
          cases hkey.symm.trans hkey'
          rfl

/-- **A scalar, a struct or a union means one instance**, whatever reference it is described
for. -/
theorem ShapeMeans.eq {label label' : String} {h' : Handle} (hmeans : ShapeMeans s label shape h)
    (hmeans' : ShapeMeans s label' shape h')
    (hkind : shape.kind = .primitive ∨ shape.kind = .struct ∨ shape.kind = .union ∨
      shape.kind = .unsupported ∧ shape.name.isEmpty = false) : h = h' := by
  unfold ShapeMeans at hmeans hmeans'
  rcases hkind with hkind | hkind | hkind | ⟨hkind, hname⟩
  · simp only [hkind] at hmeans hmeans'
    exact Option.some.inj (hmeans.symm.trans hmeans')
  iterate 2
    simp only [hkind] at hmeans hmeans'
    cases htemplate : (TypeName.parsePlain? shape.title).filter TypeName.isTemplate with
    | none =>
      simp only [htemplate] at hmeans hmeans'
      exact Option.some.inj (hmeans.symm.trans hmeans')
    | some v =>
      simp only [htemplate] at hmeans hmeans'
      obtain ⟨keys, hkeys, hget⟩ := hmeans
      obtain ⟨keys', hkeys', hget'⟩ := hmeans'
      obtain rfl := eq_of_argumentKeys hkeys hkeys'
      exact Option.some.inj (hget.symm.trans hget')
  · simp only [hkind, hname, Bool.false_eq_true, if_false] at hmeans hmeans'
    exact Option.some.inj (hmeans.symm.trans hmeans')

/-! ## 2. What a declaration leaves

The functions of the declare phase one by one, from the inside out: each leaves tables in which
its result is what the shape means. The state in which the keys of arguments are asked for is
that after all arguments were declared, so an argument that was declared early must still be
entered then. It is: entries of `declared` are overwritten only for references that ask for
themselves, and those of the arguments stand until the aggregate itself is entered. -/

/-- An aggregate is placed under a free key, or it is found. -/
theorem placeNew_eq_ok {key : Key} {a : Aggregate}
    (hrun : placeNew task key a shape s = .ok h s') : s'.declared = s.declared ∧
      s.registry.Widens s'.registry ∧ s'.registry.get? key = some h := by
  unfold placeNew at hrun
  rw [run_get_bind] at hrun
  cases hget : s.registry.get? key with
  | some x =>
    simp only [hget] at hrun
    cases hrun
    exact ⟨rfl, .refl _, hget⟩
  | none =>
    simp only [hget, place] at hrun
    rw [run_bind_ok (register_run hget _)] at hrun
    cases hrun
    exact ⟨rfl, Registry.widens_bind _ hget _, (Registry.get?_bind _ _ _ _).trans (if_pos rfl)⟩

section

variable (hdeclare : Declares declare)

include hdeclare

/-- The arguments of a template are declared, and stay so until their keys are asked for. -/
theorem argumentKeys_of_declared {arguments : List Argument} {found : List TemplateArgument}
    {keys : List KeyArgument} (hw : WellFormed s)
    (hrun : declareArguments declare arguments s = .ok found t)
    (hkeys : argumentKeys found t = .ok keys s') :
    s' = t ∧ List.Forall₂ (ArgumentKey t) arguments keys := by
  induction arguments generalizing s found keys s' with
  | nil =>
    cases hrun
    cases hkeys
    exact ⟨rfl, .nil⟩
  | cons argument rest ih =>
    cases argument with
    | number n =>
      obtain ⟨others, u, hrest, hret⟩ := bind_eq_ok hrun
      cases hret
      obtain ⟨more, v, hlater, hret⟩ := bind_eq_ok hkeys
      cases hret
      obtain ⟨rfl, hall⟩ := ih hw hrest hlater
      exact ⟨rfl, .cons (.number n) hall⟩
    | type u =>
      obtain ⟨_, s₁, hneed, hcalls⟩ := bind_eq_ok hrun
      obtain ⟨rfl, -⟩ := needWritable_eq_ok hneed
      obtain ⟨x, s₂, hfirst, hlast⟩ := bind_eq_ok hcalls
      obtain ⟨others, s₃, hrest, hret⟩ := bind_eq_ok hlast
      cases hret
      obtain ⟨hw₂, -, -, hx⟩ := (hdeclare _ _ hw).of_ok hfirst
      have hg := ((steps_declareArguments hdeclare rest hw₂).of_ok hrest).2.1
      obtain ⟨key, s₄, hkeyOf, hmore⟩ := bind_eq_ok hkeys
      obtain ⟨rfl, hkey⟩ := keyOf_eq_ok hkeyOf
      obtain ⟨more, v, hlater, hret⟩ := bind_eq_ok hmore
      cases hret
      obtain ⟨rfl, hall⟩ := ih hw₂ hrest hlater
      exact ⟨rfl, .cons (.type (hg.declared _ _ hx) hkey) hall⟩

/-- A struct or union is found under its key, with the keys of its arguments as they are now. -/
theorem means_of_declareAggregate {label : String} (hw : WellFormed s) (htitled : shape.IsTitled)
    (hkind : shape.kind = .struct ∨ shape.kind = .union)
    (hrun : declareAggregate task declare shape s = .ok h s') : ShapeMeans s' label shape h := by
  have hname : shape.kind ≠ .primitive ∧ shape.kind ≠ .unsupported := by
    rcases hkind with hkind | hkind <;> simp [hkind]
  suffices hmeans : match (TypeName.parsePlain? shape.title).filter TypeName.isTemplate with
      | some t => ∃ keys, List.Forall₂ (ArgumentKey s') t.arguments keys ∧
          s'.registry.get? (.mk t.baseName keys) = some h
      | none => s'.registry.get? (keyOfName shape.title) = some h by
    unfold ShapeMeans
    rcases hkind with hkind | hkind
    · simp only [hkind]
      exact hmeans
    · simp only [hkind]
      exact hmeans
  unfold declareAggregate at hrun
  rw [run_bind_ok (nameOf_run htitled hname)] at hrun
  cases htemplate : (TypeName.parsePlain? shape.title).filter TypeName.isTemplate with
  | none =>
    simp only [htemplate] at hrun ⊢
    obtain ⟨key, u, hkey, hplace⟩ := bind_eq_ok hrun
    obtain ⟨rfl, rfl⟩ := namedKey_eq_ok hkey
    exact (placeNew_eq_ok hplace).2.2
  | some v =>
    simp only [htemplate] at hrun ⊢
    obtain ⟨found, t, harguments, hrun⟩ := bind_eq_ok hrun
    obtain ⟨keys, u, hkeys, hrun⟩ := bind_eq_ok hrun
    obtain ⟨_, u', hneed, hplace⟩ := bind_eq_ok hrun
    obtain ⟨rfl, hall⟩ := argumentKeys_of_declared hdeclare hw harguments hkeys
    obtain ⟨rfl, -⟩ := needWritable_eq_ok hneed
    obtain ⟨hdeclared, hwidens, hget⟩ := placeNew_eq_ok hplace
    exact ⟨keys, hall.imp fun _ _ ha => ha.mono hwidens fun _ _ _ hx => hdeclared ▸ hx, hget⟩

/-- The kinds of shapes, with the name of the reference as the label of what has no name of its
own. -/
theorem means_of_declareShape {label : String} (hw : WellFormed s) (hknows : Knows s ref shape)
    (htitled : shape.IsTitled) (hrun : declareShape task declare label (some shape) s = .ok h s') :
    ShapeMeans s' label shape h := by
  cases hkind : shape.kind with
  | primitive =>
    simp only [declareShape, hkind] at hrun
    simp only [ShapeMeans, hkind]
    exact ((steps_primitive task hw ⟨ref, shape, hknows, .self hkind⟩).of_ok hrun).2.2
  | unsupported =>
    simp only [declareShape, hkind] at hrun
    simp only [ShapeMeans, hkind]
    exact ((steps_undefined task hw _ _).of_ok hrun).2.2
  | array =>
    simp only [declareShape, hkind] at hrun
    simp only [ShapeMeans, hkind]
    intro target htarget
    simp only [htarget] at hrun
    obtain ⟨e, t, hcall, harray⟩ := bind_eq_ok hrun
    obtain ⟨ht, -, hin, he⟩ := (hdeclare s target hw).of_ok hcall
    have hsuffixes : applySuffixes task e [.array shape.length] t = .ok h s' := by
      rw [applySuffixes, applySuffix, run_bind_ok harray]
      rfl
    obtain ⟨-, hg, -, hwraps⟩ := (steps_applySuffixes task _ ht hin).of_ok hsuffixes
    exact ⟨e, hg.declared _ _ he, hwraps⟩
  | struct =>
    simp only [declareShape, hkind] at hrun
    exact means_of_declareAggregate hdeclare hw htitled (.inl hkind) hrun
  | union =>
    simp only [declareShape, hkind] at hrun
    exact means_of_declareAggregate hdeclare hw htitled (.inr hkind) hrun
  | _ => simp only [ShapeMeans, hkind]

/-- What was declared means what it was declared as. -/
theorem means_of_declareNew (hd : Describes task describe valid) (ht : Truthful describe valid s)
    (hw : WellFormed s) (hrun : declareNew task declare ref s = .ok h s') :
    Means describe s' ref h where
  spelled := by
    rintro text u rfl hnot hparse
    obtain ⟨-, hbase⟩ := exists_base hrun hparse
    rcases hbase with ⟨hself, hwrapping⟩ | ⟨base, v, hbase, happly⟩
    · have hsuffixes : u.suffixes = [] := TypeName.suffixes_eq_nil_of_wrapping hwrapping
      have hbare : u.withoutSuffixes = u := by
        cases u
        obtain rfl : _ = [] := hsuffixes
        rfl
      exact absurd ⟨u, hparse, hsuffixes, hbare ▸ hself⟩ hnot
    · obtain ⟨hwv, -, hin, hdeclared⟩ := (hdeclare s _ hw).of_ok hbase
      obtain ⟨-, hg, -, hwraps⟩ := (steps_applySuffixes task u.wrapping hwv hin).of_ok happly
      exact ⟨base, hg.declared _ _ hdeclared, hwraps⟩
  shown := by
    intro shape hshows
    obtain ⟨hdescribed, -⟩ := declareDescribed_of_declareNew hshows.described hrun
    obtain ⟨answer, t, hquery, hshape⟩ := bind_eq_ok hdescribed
    obtain rfl : answer = some shape := (eq_of_query hd ht hquery).trans hshows.eq
    obtain ⟨ht', -, hknown⟩ := (steps_query task hw ref).of_ok hquery
    exact means_of_declareShape hdeclare ht' hknown (hd.titled _ _ hshows.eq) hshape

end

/-! ## 3. Tables that are founded

The invariant, what keeps it, and the induction over calls inside calls. -/

/-- What is declared, and does not ask for itself, means what it was declared as. -/
structure Founded (describe : Description) (valid : σ → Prop) (s : State σ) : Prop where
  truthful : Truthful describe valid s
  means : ∀ ref h, s.declared.get? ref = some h → ¬AsksItself describe ref → Means describe s ref h

namespace Founded

/-- Nothing is declared at first. -/
theorem start {session : σ} (hvalid : valid session) :
    Founded describe valid (State.start session) where
  truthful := ⟨hvalid, fun _ _ h => by cases h⟩
  means := fun _ _ h => by cases h

/-- Keys are taken, and nothing is declared. -/
theorem widen (hs : Founded describe valid s) (hdeclared : s'.declared = s.declared)
    (hregistry : s.registry.Widens s'.registry) (ht : Truthful describe valid s') :
    Founded describe valid s' where
  truthful := ht
  means := fun ref h hh hself =>
    (hs.means ref h (hdeclared ▸ hh) hself).mono hregistry fun _ _ _ hx => hdeclared ▸ hx

/-- What looks up or reports, and no more, declares nothing. -/
theorem quiet (hd : Describes task describe valid) (h : Quiet task s s')
    (hs : Founded describe valid s) : Founded describe valid s' :=
  hs.widen h.frame.1 h.frame.2.2 ((asking_truthful hd).quiet h hs.truthful)

/-- **A reference is remembered at the end of its declaration.** All that became known meanwhile
it asked for, so who uses the reference and does not ask for itself was known before; but the
reference was not. -/
theorem put (hs : Founded describe valid s) (hnew : s.declared.get? ref = none)
    (ht : Founded describe valid t)
    (hreached : ∀ x, s.declared.get? x = none → (t.declared.get? x).isSome = true →
      Relation.TransGen (AsksFor describe) ref x)
    (hmeans : Means describe t ref h) :
    Founded describe valid { t with declared := t.declared.put ref h } where
  truthful := ht.truthful
  means := by
    intro x y hfound hself
    have hkept {used : Ref} {z : Handle} (hne : ref ≠ used)
        (hz : t.declared.get? used = some z) : (t.declared.put ref h).get? used = some z := by
      rw [Assoc.get?_put, if_neg hne]
      exact hz
    have hy : (t.declared.put ref h).get? x = some y := hfound
    rw [Assoc.get?_put] at hy
    split at hy
    · rename_i heq
      subst heq
      cases hy
      refine hmeans.mono (.refl _) fun used z huses hz => hkept ?_ hz
      rintro rfl
      -- the reference itself: who used itself would ask for itself
      exact hself (.single huses.asks)
    · refine (ht.means x y hy hself).mono (.refl _) fun used z huses hz => hkept ?_ hz
      rintro rfl
      -- another reference `x` that uses the one that is entered
      cases hx : s.declared.get? x with
      | none =>
        have hback := hreached x hx (Option.isSome_iff_exists.mpr ⟨y, hy⟩)
        exact hself ((Relation.TransGen.single huses.asks).trans hback)
      | some z =>
        have hused := (hs.means x z hx hself).isSome_declared huses
        rw [hnew] at hused
        cases hused

end Founded

/-- While a reference is declared: the tables are founded, and it asks for what became known. -/
structure Founds (describe : Description) (valid : σ → Prop) (ref : Ref) (s s' : State σ) :
    Prop where
  founded : Founded describe valid s'
  reached : ∀ x, s.declared.get? x = none → (s'.declared.get? x).isSome = true →
    Relation.ReflTransGen (AsksFor describe) ref x

/-- How references are declared: the tables stay founded. -/
def Founding (describe : Description) (valid : σ → Prop) (declare : Ref → Run σ Handle) : Prop :=
  ∀ ref (s : State σ), WellFormed s → Founded describe valid s →
    Ensures (declare ref) s (fun _ s' => Founds describe valid ref s s')
      fun _ s' => Founded describe valid s'

section

variable (hdeclare : Declares declare) (hfounding : Founding describe valid declare)
  (hd : Describes task describe valid)

section

include hfounding

/-- A call on behalf of a reference declares what that call reaches. -/
theorem founds_call (c : Call) (hw : WellFormed s) (hs : Founded describe valid s) :
    Ensures (c.run declare) s (fun _ s' => Founds describe valid c.ref s s')
      fun _ s' => Founded describe valid s' := by
  have hentered : Founded describe valid (c.enter s) := hs.widen rfl (.refl _) hs.truthful
  refine ensures_call (Ensures.mono (hfounding c.ref _ (hw.enter c) hentered) ?_ ?_)
  · intro _ u hu
    exact ⟨hu.founded.widen rfl (.refl _) hu.founded.truthful, hu.reached⟩
  · intro _ u hu
    exact hu.widen rfl (.refl _) hu.truthful

include hd

/-- The calls of one declaration after each other: whatever they make known, `ref` asked for,
since every call is one of its own. -/
theorem founds_trace {cs : List Call} (hcs : ∀ c ∈ cs, c ∈ calls describe ref)
    (htrace : Trace task declare cs s s') (hs : Founded describe valid s) :
    Founded describe valid s' ∧ ∀ x, s.declared.get? x = none →
      (s'.declared.get? x).isSome = true → Relation.TransGen (AsksFor describe) ref x := by
  induction htrace with
  | done hq =>
    refine ⟨hs.quiet hd hq, fun x hx hsome => ?_⟩
    rw [hq.frame.1, hx] at hsome
    cases hsome
  | @call s t u s' c rest h hq hw hrun _ ih =>
    have hu := (founds_call hfounding c hw (hs.quiet hd hq)).of_ok hrun
    obtain ⟨hs', hlater⟩ := ih (fun c hc => hcs c (List.mem_cons_of_mem _ hc)) hu.founded
    refine ⟨hs', fun x hx hsome => ?_⟩
    cases hux : u.declared.get? x with
    | none => exact hlater x hux hsome
    | some y =>
      have hpath := hu.reached x (by rw [hq.frame.1, hx]) (by rw [hux]; rfl)
      exact Relation.TransGen.head' ⟨c, hcs c List.mem_cons_self, rfl⟩ hpath

/-- The same for calls of which the last one stopped. -/
theorem founded_of_broken {cs : List Call} {e : Stop}
    (hbroken : Broken task describe ref declare cs s e s') (hs : Founded describe valid s) :
    Founded describe valid s' := by
  induction hbroken with
  | here hq hq' => exact hs.quiet hd (hq.trans hq')
  | call hq hw hrun => exact (founds_call hfounding _ hw (hs.quiet hd hq)).of_error hrun
  | later hq hw hrun _ ih =>
    exact ih ((founds_call hfounding _ hw (hs.quiet hd hq)).of_ok hrun).founded

end

include hdeclare hfounding hd in
/-- One level of the recursion. A reference that is known already changes nothing. For another
the trace of its calls keeps the tables founded, and entering it at the end is `Founded.put`. -/
theorem founding_declareOnce : Founding describe valid (declareOnce task declare) := by
  intro ref s hw hs
  unfold declareOnce Ensures
  cases hget : s.declared.get? ref with
  | some h =>
    simp only [run_get_bind, hget]
    refine ⟨hs, fun x hx hsome => ?_⟩
    rw [hx] at hsome
    cases hsome
  | none =>
    simp only [run_get_bind, hget]
    -- which calls are made depends on the state: none for what was opened or known before
    obtain ⟨cs, hmade⟩ := exists_made describe s ref
    have hcs : ∀ c ∈ cs, c ∈ calls describe ref := by
      cases hmade with
      | all => exact fun c hc => hc
      | opened | known => exact fun c hc => by cases hc
    have hplaces := places_declareNew hdeclare hd hs.truthful hw hmade
    cases hr : declareNew task declare ref s with
    | error e t =>
      rw [run_bind_error hr]
      exact founded_of_broken hfounding hd (hplaces.of_error hr) hs
    | ok h t =>
      rw [run_bind_ok hr]
      obtain ⟨u, htrace, hend⟩ := hplaces.of_ok hr
      obtain ⟨hu, hreached⟩ := founds_trace hfounding hd hcs htrace hs
      obtain ⟨ht, hdeclared⟩ : Founded describe valid t ∧ t.declared = u.declared := by
        rcases hend with rfl | hwaits
        · exact ⟨hu, rfl⟩
        · refine ⟨hu.widen hwaits.declared (hwaits.registry ▸ .refl _) ?_, hwaits.declared⟩
          exact ⟨hwaits.session ▸ hu.truthful.1,
            fun r a ha => hu.truthful.2 r a (hwaits.shapes ▸ ha)⟩
      have hmeans := means_of_declareNew hdeclare hd hs.truthful hw hr
      rw [← hdeclared] at hreached
      refine ⟨hs.put hget ht hreached hmeans, fun x hx hsome => ?_⟩
      have hsome : ((t.declared.put ref h).get? x).isSome = true := hsome
      rw [Assoc.get?_put] at hsome
      split at hsome
      · rename_i heq
        rw [heq]
      · exact (hreached x hx hsome).to_reflTransGen

end

/-- **Declaring keeps the tables founded**, however deeply references are followed. -/
theorem founding_declare (hd : Describes task describe valid) (n : Nat) :
    Founding describe valid (NativeTypes.Resolver.declare task n) := by
  induction n with
  | zero => exact fun _ _ _ hs => hs
  | succ n ih => exact founding_declareOnce (declares_declare task n) ih hd

/-- **The tables are founded after any number of requests**, whether they returned or stopped. -/
theorem Attempted.founded (hd : Describes task describe valid) (h : Attempted task valid s) :
    Founded describe valid s := by
  obtain ⟨session, hvalid, hs⟩ := h
  refine requests_keep (I := Founded describe valid) ?_ ?_ hs
    (settled_start task.module session).toWellFormed (.start hvalid)
  · intro n ref t hw ht
    exact Ensures.mono (founding_declare hd n ref t hw ht) (fun _ _ hu => hu.founded)
      fun _ _ hu => hu
  · intro t t' hknown ht
    obtain ⟨hget, hkey⟩ := keys_of_known hknown
    simp only [known, Prod.mk.injEq] at hknown
    obtain ⟨hsession, hshapes, hdeclared, -⟩ := hknown
    exact ht.widen hdeclared
      ⟨fun key x hx => (hget key).trans hx, fun x key hk => (hkey x).trans hk⟩
      ⟨hsession ▸ ht.truthful.1, fun r a ha => ht.truthful.2 r a (hshapes ▸ ha)⟩

end NativeTypes.Resolver
