/-
NativeTypes.Proofs.Resolver.Keying — declaring keeps what is known of keys.

What is known is said in `Keyed`: primary keys arise from what is described,
other keys are names of typedefs, and whoever was declared by the name of a
struct or union is found under its key. Here it is shown that the declare phase
keeps this. The functions are gone through from the shapes upwards, given how
references are declared (`DeclaresKeyed`), and each lemma `keying_f` adds to
that what its callers need of the result.

Three places are of interest.

* A typedef looks its target up before it takes a key. If the target is a
  struct, it is found under the struct's own key; so the typedef never takes
  the key of a struct that it is a typedef of, and its own key is one more
  (`keying_declareAlias`).
* A struct or union without type arguments is placed under its fixed key,
  whether it is made now or was there (`keying_declareAggregate`). With type
  arguments the key depends on what these are declared as, and nothing is said.
* A text that is no type name is a placeholder before it is remembered
  (`keying_refused`). In between the key of the placeholder arises from nothing
  that was met, so the two edits are taken together.

The calls of a reference are declared while it is not remembered itself. That
is no problem for what is known: it is about references that were declared, and
only grows with them.

So what is known of keys holds after any requests (`Attempted.keyed`), by
induction on requests as for the other invariants.
-/
import NativeTypes.Proofs.Resolver.Keyed

namespace NativeTypes.Resolver

variable {σ : Type} {task : Task σ} {describe : Description} {valid : σ → Prop}
  {declare : Ref → Run σ Handle} {s s' : State σ} {key : Key} {h : Handle}

/-! ## 1. Shapes

`Arises` says what a key can come of, and it only grows with the texts that were met. The
functions that declare nothing come first. -/

/-- How references are declared: what is known of keys is kept. -/
def DeclaresKeyed (describe : Description) (valid : σ → Prop) (declare : Ref → Run σ Handle) :
    Prop :=
  ∀ ref (s : State σ), WellFormed s → Keyed describe valid s →
    Keying describe valid s (declare ref) fun _ _ => True

variable (hdeclare : Declares declare) (hkeyed : DeclaresKeyed describe valid declare)

/-- Keys of instances are primary keys, so they arise. -/
theorem keying_keysOf (handles : List Handle) (hs : Keyed describe valid s) (hw : WellFormed s) :
    Keying describe valid s (keysOf handles) fun keys _ =>
      ∀ key ∈ keys, Arises describe (Met s) key := by
  induction handles with
  | nil => exact keying_pure hs (by simp)
  | cons x rest ih =>
    refine keying_bind (steps_keyOf hw x) (keying_keyOf hs x) ?_
    rintro key s₁ hw₁ - hs₁ ⟨rfl, -⟩ hkey
    refine keying_bind (steps_keysOf rest hw₁) ih ?_
    rintro keys _ - - hs₂ ⟨rfl, -⟩ hkeys
    exact keying_pure hs₂ (List.forall_mem_cons.mpr ⟨hkey, hkeys⟩)

/-- So do those of template arguments. -/
theorem keying_argumentKeys (arguments : List TemplateArgument) (hs : Keyed describe valid s)
    (hw : WellFormed s) :
    Keying describe valid s (argumentKeys arguments) fun keys _ =>
      ∀ key, .key key ∈ keys → Arises describe (Met s) key := by
  induction arguments with
  | nil => exact keying_pure hs (by simp)
  | cons argument rest ih =>
    cases argument with
    | number n =>
      unfold argumentKeys
      refine keying_bind (steps_argumentKeys rest hw) ih ?_
      rintro keys _ - - hs₁ ⟨rfl, -⟩ hkeys
      exact keying_pure hs₁ (by simpa using hkeys)
    | type x =>
      unfold argumentKeys
      refine keying_bind (steps_keyOf hw x) (keying_keyOf hs x) ?_
      rintro key s₁ hw₁ - hs₁ ⟨rfl, -⟩ hkey
      refine keying_bind (steps_argumentKeys rest hw₁) ih ?_
      rintro keys _ - - hs₂ ⟨rfl, -⟩ hkeys
      refine keying_pure hs₂ fun k hk => ?_
      rcases List.mem_cons.mp hk with heq | hk
      · cases heq
        exact hkey
      · exact hkeys k hk

/-- Members take no keys. -/
theorem keying_distinctMembers (owner : String) (seen : List String)
    (members : List (String × Int)) (hs : Keyed describe valid s) (hw : WellFormed s) :
    Keying describe valid s (distinctMembers task owner seen members) fun _ _ => True := by
  induction members generalizing s seen with
  | nil => exact keying_pure hs trivial
  | cons m rest ih =>
    obtain ⟨name, value⟩ := m
    unfold distinctMembers
    split
    · exact keying_bind (steps_report hw (.inr rfl)) (keying_report hs _)
        fun _ s₁ hw₁ _ hs₁ _ _ => ih seen hs₁ hw₁
    · refine keying_bind (steps_distinctMembers task _ _ _ hw) (ih _ hs hw) ?_
      intro _ s₁ _ _ hs₁ _ _
      exact keying_pure hs₁ trivial

/-- An aggregate is found under the key that it was placed under. -/
theorem keying_placeNew (hs : Keyed describe valid s) (hw : WellFormed s) (a : Aggregate)
    (shape : Shape) (ha : Arises describe (Met s) key) :
    Keying describe valid s (placeNew task key a shape) fun h s' =>
      s'.registry.get? key = some h := by
  unfold placeNew
  refine keying_get_bind ?_
  split
  · rename_i h hh
    exact keying_pure hs hh
  · have hregister : Keying describe valid s (register task key (.aggregate a)) fun h s' =>
        s'.registry.get? key = some h := keying_register hs hw _ ha
    unfold place Keying Ensures
    unfold Keying Ensures at hregister
    cases hr : register task key (.aggregate a) s with
    | error e t =>
      rw [hr] at hregister
      rw [run_bind_error hr]
      exact hregister
    | ok h t =>
      rw [hr] at hregister
      rw [run_bind_ok hr]
      exact ⟨hregister.1.reframe hregister.1.truthful (fun _ => rfl) (fun _ => rfl) rfl,
        hregister.2⟩

section

include hdeclare hkeyed

/-- References in a row. -/
theorem keying_declareAll (refs : List Ref) (hs : Keyed describe valid s) (hw : WellFormed s) :
    Keying describe valid s (declareAll declare refs) fun _ _ => True := by
  induction refs generalizing s with
  | nil => exact keying_pure hs trivial
  | cons ref rest ih =>
    refine keying_bind (hdeclare s ref hw) (hkeyed ref s hw hs) ?_
    intro _ s₁ hw₁ _ hs₁ _ _
    refine keying_bind (steps_declareAll hdeclare rest hw₁) (ih hs₁ hw₁) ?_
    intro _ s₂ _ _ hs₂ _ _
    exact keying_pure hs₂ trivial

/-- The types among template arguments, in a row. -/
theorem keying_declareArguments (arguments : List Argument) (hs : Keyed describe valid s)
    (hw : WellFormed s) :
    Keying describe valid s (declareArguments declare arguments) fun _ _ => True := by
  induction arguments generalizing s with
  | nil => exact keying_pure hs trivial
  | cons argument rest ih =>
    cases argument with
    | number n =>
      unfold declareArguments
      refine keying_bind (steps_declareArguments hdeclare rest hw) (ih hs hw) ?_
      intro _ s₁ _ _ hs₁ _ _
      exact keying_pure hs₁ trivial
    | type u =>
      unfold declareArguments
      refine keying_bind (steps_needWritable hw _) (keying_needWritable hs _) ?_
      rintro _ _ hw₁ - hs₁ ⟨rfl, -⟩ -
      refine keying_bind (hdeclare _ _ hw₁) (hkeyed _ _ hw₁ hs₁) ?_
      intro _ s₂ hw₂ _ hs₂ _ _
      refine keying_bind (steps_declareArguments hdeclare rest hw₂) (ih hs₂ hw₂) ?_
      intro _ s₃ _ _ hs₃ _ _
      exact keying_pure hs₃ trivial

variable {ref : Ref} {shape : Shape} (hshape : describe ref = some shape)

include hshape

omit hdeclare hkeyed hshape in
/-- A type with a name or an id goes by its title, and no running number is taken. -/
theorem keying_nameOf (htitled : shape.IsTitled)
    (hkind : shape.kind ≠ .primitive ∧ shape.kind ≠ .unsupported)
    (hs : Keyed describe valid s) :
    Keying describe valid s (nameOf shape) fun name s' => name = shape.title ∧ s' = s := by
  unfold Keying Ensures
  rw [nameOf_run htitled hkind]
  exact ⟨hs, rfl, rfl⟩

/-- A typedef gives its target one more key, unless the target is found under it. -/
theorem keying_declareAlias (hknows : Knows s ref shape) (hkind : shape.kind = .typedef)
    {label : String}
    (hlabel : Arises describe (Met s) (.named label)) (hs : Keyed describe valid s)
    (hw : WellFormed s) :
    Keying describe valid s (declareAlias task declare label shape) fun _ _ => True := by
  unfold declareAlias
  split
  · refine keying_undefined hs hw _ ?_
    split
    · exact hlabel
    · rename_i hname
      exact .unmodelled hshape (.inl hkind) (by simpa using hname)
  · rename_i target htarget
    refine keying_get_bind ?_
    split
    · exact keying_undefined hs hw _ hlabel
    · have hcall : Ensures (withOpenAlias label (declare target)) s
          (fun x s' => WellFormed s' ∧ Grows s s' ∧ Keyed describe valid s' ∧
            s'.declared.get? target = some x) fun _ s' => Keyed describe valid s' := by
        have henter : Keyed describe valid (Call.enter ⟨some label, target⟩ s) :=
          hs.reframe hs.truthful (fun _ => rfl) (fun _ => rfl) rfl
        have hleave {t : State σ} (ht : Keyed describe valid t) :
            Keyed describe valid (Call.leave ⟨some label, target⟩ t) :=
          ht.reframe ht.truthful (fun _ => rfl) (fun _ => rfl) rfl
        have hkept : Ensures (withOpenAlias label (declare target)) s
            (fun _ s' => Keyed describe valid s') fun _ s' => Keyed describe valid s' :=
          ensures_call (c := ⟨some label, target⟩) (Ensures.mono
            (hkeyed target _ (hw.enter _) henter) (fun _ _ ht => hleave ht.1)
            fun _ _ ht => hleave ht)
        refine Ensures.mono ((steps_withOpenAlias hdeclare label target hw).and hkept) ?_ ?_
        · rintro x t ⟨⟨hwt, hgt, hdeclared⟩, ht⟩
          exact ⟨hwt, hgt, ht, hdeclared⟩
        · rintro e t ⟨-, ht⟩
          exact ht
      refine ensures_bind hcall ?_
      rintro x s₁ ⟨hw₁, hg₁, hs₁, hdeclared⟩
      split
      · rename_i hname
        refine keying_bind (steps_namedKey hw₁ _) (keying_namedKey hs₁ hw₁ _) ?_
        rintro _ _ hw₂ - hs₂ - ⟨rfl, rfl⟩
        refine keying_bind (steps_addAlias task hw₂ _ (fun _ => isWritable_keyOfName _)
          fun hsource => ?_) (keying_addAlias hs₂ hw₂ (hw₂.declared _ _ hdeclared) fun hfree =>
          ⟨ref, shape, target, hshape, hkind, htarget, rfl, fun text htext hspells => ?_⟩) ?_
        · exact .typedef (hg₁.shapes _ _ hknows) hkind htarget (by simpa using hname)
            (hsource.justified (.ref target) x hdeclared)
        · -- the key of what is spelled is taken
          have htaken := hs₂.found text _ x (htext ▸ hdeclared) hspells
          rw [hfree] at htaken
          cases htaken
        · intro _ s₃ _ _ hs₃ _ _
          exact keying_pure hs₃ trivial
      · exact keying_pure hs₁ trivial

/-- The key of an enumeration arises from its description, and it was met by then. -/
theorem keying_declareEnumeration (hknows : Knows s ref shape) (htitled : shape.IsTitled)
    (hkind : shape.kind = .enumeration)
    (hs : Keyed describe valid s) (hw : WellFormed s) :
    Keying describe valid s (declareEnumeration task declare shape) fun _ _ => True := by
  unfold declareEnumeration
  refine keying_bind (steps_nameOf hw shape)
    (keying_nameOf htitled (by simp [hkind]) hs) ?_
  rintro _ _ hw₁ hg₁ hs₁ - ⟨rfl, rfl⟩
  refine keying_bind (steps_namedKey hw₁ _) (keying_namedKey hs₁ hw₁ _) ?_
  rintro _ _ hw₂ - hs₂ - ⟨rfl, rfl⟩
  refine keying_get_bind ?_
  split
  · exact keying_pure hs₂ trivial
  · have hnext : ∀ (underlying : Handle) (s₃ : State σ), WellFormed s₃ →
        Keyed describe valid s₃ →
        Keying describe valid s₃ (do
          let members ← distinctMembers task shape.title [] shape.members
          register task (keyOfName shape.title) (.enumeration
            { name := (splitName shape.title).2, scope := (splitName shape.title).1, underlying,
              members })) fun _ _ => True := by
      intro underlying s₃ hw₃ hs₃
      refine keying_bind (steps_distinctMembers task _ _ _ hw₃)
        (keying_distinctMembers _ _ _ hs₃ hw₃) ?_
      intro members s₄ hw₄ _ hs₄ _ _
      exact (keying_register hs₄ hw₄ _ (.enumeration hshape hkind)).mono fun _ _ _ => trivial
    simp only
    split
    · exact keying_bind (hdeclare _ _ hw₂) (hkeyed _ _ hw₂ hs₂)
        fun x s₃ hw₃ _ hs₃ _ _ => hnext x s₃ hw₃ hs₃
    · rename_i hunderlying
      exact keying_bind (steps_primitive task hw₂ ⟨ref, shape, hg₁.shapes _ _ hknows,
          .underlying hkind hunderlying⟩) (keying_primitive hs₂ hw₂ _)
        fun x s₃ hw₃ _ hs₃ _ _ => hnext x s₃ hw₃ hs₃

omit hshape in
/-- The key of a function arises from those of its result and parameters. -/
theorem keying_declareFunction (hknows : Knows s ref shape) (hkind : shape.kind = .function)
    (hs : Keyed describe valid s) (hw : WellFormed s) :
    Keying describe valid s (declareFunction task declare shape) fun _ _ => True := by
  unfold declareFunction
  have hnext : ∀ (result : Handle) (s₁ : State σ), WellFormed s₁ → Keyed describe valid s₁ →
      Keying describe valid s₁ (do
        let parameters ← declareAll declare shape.parameters
        let key := Key.function (← keyOf result) (← keysOf parameters) shape.variadic
        let name := if shape.name.isEmpty then none else some shape.name
        ensure task key (.function { result, parameters, variadic := shape.variadic, name }))
        fun _ _ => True := by
    intro result s₁ hw₁ hs₁
    refine keying_bind (steps_declareAll hdeclare shape.parameters hw₁)
      (keying_declareAll hdeclare hkeyed _ hs₁ hw₁) ?_
    intro parameters s₂ hw₂ _ hs₂ _ _
    refine keying_bind (steps_keyOf hw₂ result) (keying_keyOf hs₂ result) ?_
    rintro key s₃ hw₃ - hs₃ ⟨rfl, -⟩ hkey
    refine keying_bind (steps_keysOf parameters hw₃) (keying_keysOf parameters hs₃ hw₃) ?_
    rintro keys _ hw₄ - hs₄ ⟨rfl, -⟩ hkeys
    exact (keying_ensure hs₄ hw₄ _ (.function _ hkey hkeys)).mono fun _ _ _ => trivial
  simp only
  split
  · exact keying_bind (hdeclare _ _ hw) (hkeyed _ _ hw hs)
      fun x s₁ hw₁ _ hs₁ _ _ => hnext x s₁ hw₁ hs₁
  · rename_i hresult
    exact keying_bind (steps_primitive task hw ⟨ref, shape, hknows, .result hkind hresult⟩)
      (keying_primitive hs hw _) fun x s₁ hw₁ _ hs₁ _ _ => hnext x s₁ hw₁ hs₁

/-- A struct or union without type arguments is found under its fixed key. -/
theorem keying_declareAggregate (htitled : shape.IsTitled) (hkind : shape.isAggregate = true)
    (hs : Keyed describe valid s) (hw : WellFormed s) :
    Keying describe valid s (declareAggregate task declare shape) fun h s' =>
      ∀ key, shape.fixedKey? = some key → s'.registry.get? key = some h := by
  have hnot : shape.kind ≠ .primitive ∧ shape.kind ≠ .unsupported := by
    constructor <;> intro hother <;> simp [Shape.isAggregate, hother] at hkind
  unfold declareAggregate
  refine keying_bind (steps_nameOf hw shape) (keying_nameOf htitled hnot hs) ?_
  rintro _ _ hw₁ - hs₁ - ⟨rfl, rfl⟩
  unfold Shape.fixedKey?
  cases ht : (TypeName.parsePlain? shape.title).filter TypeName.isTemplate with
  | some t =>
    simp only
    refine keying_bind (steps_declareArguments hdeclare t.arguments hw₁)
      (keying_declareArguments hdeclare hkeyed _ hs₁ hw₁) ?_
    intro arguments s₂ hw₂ _ hs₂ hfound _
    refine keying_bind (steps_argumentKeys arguments hw₂)
      (keying_argumentKeys arguments hs₂ hw₂) ?_
    rintro keys _ hw₃ - hs₃ ⟨rfl, hargumentKeys⟩ hkeys
    have hnumbers := hargumentKeys.numbers.trans hfound.numbers
    refine keying_bind (steps_needWritable hw₃ _) (keying_needWritable hs₃ _) ?_
    rintro _ _ hw₄ - hs₄ ⟨rfl, -⟩ -
    refine (keying_placeNew hs₄ hw₄ _ shape (.template hshape hkind ht hkeys hnumbers)).mono ?_
    rintro x s₅ hget key hkey
    obtain ⟨fixed, hfixed, rfl⟩ := Option.map_eq_some_iff.mp hkey
    exact eq_of_map_number? hnumbers hfixed ▸ hget
  | none =>
    simp only
    refine keying_bind (steps_namedKey hw₁ _) (keying_namedKey hs₁ hw₁ _) ?_
    rintro _ _ hw₂ - hs₂ - ⟨rfl, rfl⟩
    refine (keying_placeNew hs₂ hw₂ _ shape (.aggregate hshape hkind ht)).mono ?_
    rintro x s₃ hget key hkey
    cases hkey
    exact hget

/-- By kind; a struct or union is found under its fixed key if it has one. -/
theorem keying_declareShape (hd : Describes task describe valid) (hknows : Knows s ref shape)
    (hdescribed : IsDescribed ref)
    (hs : Keyed describe valid s) (hw : WellFormed s) :
    Keying describe valid s (declareShape task declare (labelOf ref) (some shape)) fun h s' =>
      shape.isAggregate = true → ∀ key, shape.fixedKey? = some key →
        s'.registry.get? key = some h := by
  have htitled := hd.titled _ _ hshape
  have hlabel (hagg : shape.isAggregate = false) :
      Arises describe (Met s) (.named (labelOf ref)) :=
    .label hdescribed fun other hother => by
      cases hshape.symm.trans hother
      exact hagg
  have hnot {run : Run σ Handle} (hagg : shape.isAggregate = false)
      (h : Keying describe valid s run fun _ _ => True) :
      Keying describe valid s run fun h s' => shape.isAggregate = true →
        ∀ key, shape.fixedKey? = some key → s'.registry.get? key = some h :=
    h.mono fun _ _ _ hkind => by simp [hagg] at hkind
  unfold declareShape
  simp only
  cases hkind : shape.kind with
  | primitive =>
    exact hnot (by simp [Shape.isAggregate, hkind]) (keying_primitive hs hw _)
  | pointer =>
    refine hnot (by simp [Shape.isAggregate, hkind]) ?_
    simp only
    split
    · rename_i htarget
      exact keying_bind (steps_primitive task hw ⟨ref, shape, hknows, .target hkind htarget⟩)
        (keying_primitive hs hw _) fun x _ hw₁ _ hs₁ _ _ => keying_pointer hs₁ hw₁ hd x _
    · exact keying_bind (hdeclare _ _ hw) (hkeyed _ _ hw hs)
        fun x _ hw₁ _ hs₁ _ _ => keying_pointer hs₁ hw₁ hd x _
  | array =>
    refine hnot (by simp [Shape.isAggregate, hkind]) ?_
    simp only
    split
    · exact keying_undefined hs hw _ (hlabel (by simp [Shape.isAggregate, hkind]))
    · exact keying_bind (hdeclare _ _ hw) (hkeyed _ _ hw hs)
        fun x _ hw₁ _ hs₁ _ _ => keying_array hs₁ hw₁ x _
  | typedef =>
    have hagg : shape.isAggregate = false := by simp [Shape.isAggregate, hkind]
    exact hnot hagg (keying_declareAlias hdeclare hkeyed hshape hknows hkind (hlabel hagg) hs hw)
  | enumeration =>
    exact hnot (by simp [Shape.isAggregate, hkind])
      (keying_declareEnumeration hdeclare hkeyed hshape hknows htitled hkind hs hw)
  | function =>
    exact hnot (by simp [Shape.isAggregate, hkind])
      (keying_declareFunction hdeclare hkeyed hknows hkind hs hw)
  | struct =>
    have hagg : shape.isAggregate = true := by simp [Shape.isAggregate, hkind]
    exact (keying_declareAggregate hdeclare hkeyed hshape htitled hagg hs hw).mono
      fun _ _ h _ => h
  | union =>
    have hagg : shape.isAggregate = true := by simp [Shape.isAggregate, hkind]
    exact (keying_declareAggregate hdeclare hkeyed hshape htitled hagg hs hw).mono
      fun _ _ h _ => h
  | unsupported =>
    refine hnot (by simp [Shape.isAggregate, hkind]) (keying_undefined hs hw _ ?_)
    split
    · exact hlabel (by simp [Shape.isAggregate, hkind])
    · rename_i hname
      exact .unmodelled hshape (.inr hkind) (by simpa using hname)

end

/-! ## 2. References

Besides that `Keyed` is kept, a reference that spells a struct or union is found under its key
afterwards (`IsFound`). A name that is not canonical passes that on to the name it is a spelling
of. -/

/-- What a reference that is a name of a struct or union is declared as. -/
def IsFound (describe : Description) (ref : Ref) (h : Handle) (s : State σ) : Prop :=
  ∀ text key, ref = .name text → SpellsAggregate describe text key →
    s.registry.get? key = some h

/-- A canonical name spells nothing but itself. -/
theorem SpellsAggregate.exists_shape {text : String} (hdescribed : IsDescribed (.name text))
    (h : SpellsAggregate describe text key) : ∃ shape, describe (.name text) = some shape ∧
      shape.isAggregate = true ∧ shape.fixedKey? = some key := by
  obtain ⟨base, shape, hspells, hshape⟩ := h
  obtain ⟨rfl, -⟩ := hspells.eq (.bare hdescribed)
  exact ⟨shape, hshape⟩

/-- Another name spells what its base spells. -/
theorem Unwraps.exists_base {text base : String} {suffixes : List Suffix}
    (h : Unwraps text base suffixes) (hnot : ¬IsDescribed (.name text)) :
    ∃ t rest, TypeName.parse text = .ok t ∧ Unwraps t.withoutSuffixes.format base rest ∧
      suffixes = rest ++ t.wrapping := by
  cases h with
  | bare hdescribed => exact absurd hdescribed hnot
  | wrapped _ hparse hrest => exact ⟨_, _, hparse, hrest, rfl⟩

/-- It has no suffixes if what it spells is a struct or union. -/
theorem SpellsAggregate.exists_base {text : String} (hnot : ¬IsDescribed (.name text))
    (h : SpellsAggregate describe text key) : ∃ t, TypeName.parse text = .ok t ∧
      t.suffixes = [] ∧ SpellsAggregate describe t.withoutSuffixes.format key := by
  obtain ⟨base, shape, hspells, hshape⟩ := h
  obtain ⟨t, rest, hparse, hrest, hnil⟩ := hspells.exists_base hnot
  obtain ⟨rfl, hwrapping⟩ := List.append_eq_nil_iff.mp hnil.symm
  exact ⟨t, hparse, TypeName.suffixes_eq_nil_of_wrapping hwrapping, base, shape, hrest, hshape⟩

/-- A text that is no type name is remembered as a placeholder. -/
theorem keying_refused {text : String} {e : NameSyntaxError}
    (hparse : TypeName.parse text = .error e) (hs : Keyed describe valid s) (hw : WellFormed s) :
    Keying describe valid s (do
      let h ← declareNew task declare (.name text)
      modify fun s => { s with declared := s.declared.put (.name text) h }
      return h) fun _ _ => True := by
  have hdescribed : ¬IsDescribed (.name text) := by
    rintro ⟨t, ht, -⟩
    cases hparse.symm.trans ht
  have hnever : ∀ x, IsFound describe (.name text) x s := by
    rintro x _ key ⟨⟩ hspells
    obtain ⟨t, ht, -⟩ := hspells.exists_base hdescribed
    cases hparse.symm.trans ht
  have hnew : declareNew task declare (.name text) s =
      undefined task (String.ofList (Text.trim text.toList)) e.message s := by
    simp only [declareNew, declareName, hparse]
  unfold Keying Ensures
  rcases undefined_run task (String.ofList (Text.trim text.toList)) e.message s with
    ⟨x, -, hrun⟩ | ⟨hget, hrun⟩
  · rw [run_bind_ok (hnew.trans hrun)]
    exact ⟨hs.put (hnever x), trivial⟩
  · rw [run_bind_ok (hnew.trans hrun)]
    have hdeclared (r : Ref) (x : Handle) : (s.declared.put (.name text) x).get? r =
        if .name text = r then some x else s.declared.get? r := Assoc.get?_put _ _ _ _
    refine ⟨hs.push hw hget (.refused ?_ hparse) rfl rfl rfl (fun other hmet => ?_)
      fun other key x hx hspells => ?_, trivial⟩
    · show ((s.declared.put _ _).get? _).isSome = true
      rw [hdeclared, if_pos rfl]
      rfl
    · show ((s.declared.put _ _).get? _).isSome = true
      rw [hdeclared]
      split
      · rfl
      · exact hmet
    · have hx : (s.declared.put (.name text) s.graph.count).get? (.name other) = some x := hx
      rw [hdeclared] at hx
      split at hx
      · rename_i heq
        cases heq
        exact hnever x _ key rfl hspells
      · exact hs.found other key x hx hspells

section

variable (hd : Describes task describe valid)

include hd hdeclare hkeyed

/-- The source's answer is the description's, and the reference is met by asking. -/
theorem keying_declareDescribed {ref : Ref} (hdescribed : IsDescribed ref)
    (hs : Keyed describe valid s) (hw : WellFormed s) :
    Keying describe valid s (declareDescribed task declare (labelOf ref) ref)
      (IsFound describe ref) := by
  unfold declareDescribed
  refine keying_bind (steps_query task hw ref) (keying_query hs hw hd ref) ?_
  rintro answer s₁ hw₁ - hs₁ hknown rfl
  cases hanswer : describe ref with
  | none =>
    refine (keying_undefined hs₁ hw₁ _ (.label hdescribed (by simp [hanswer]))).mono ?_
    rintro h s₂ - text key rfl hspells
    obtain ⟨shape, hshape, -⟩ := hspells.exists_shape hdescribed
    cases hanswer.symm.trans hshape
  | some shape =>
    refine (keying_declareShape hdeclare hkeyed hanswer hd (hknown.trans (by rw [hanswer]))
      hdescribed hs₁ hw₁).mono ?_
    rintro h s₂ hget text key rfl hspells
    obtain ⟨other, hother, hkind, hkey⟩ := hspells.exists_shape hdescribed
    cases hanswer.symm.trans hother
    exact hget hkind key hkey

/-- A text that is a type name. -/
theorem keying_declareName {text : String} {t : TypeName} (hparse : TypeName.parse text = .ok t)
    (hs : Keyed describe valid s) (hw : WellFormed s) :
    Keying describe valid s (declareName task declare text) (IsFound describe (.name text)) := by
  simp only [declareName, hparse]
  refine keying_bind (steps_needWritable hw _) (keying_needWritable hs _) ?_
  rintro _ _ hw₁ - hs₁ ⟨rfl, -⟩ -
  have hcall : Keying describe valid _ (do
      let h ← declare (.name t.withoutSuffixes.format)
      applySuffixes task h t.wrapping) fun _ _ => True :=
    keying_bind (hdeclare _ (.name t.withoutSuffixes.format) hw₁) (hkeyed _ _ hw₁ hs₁)
      fun x s₂ hw₂ _ hs₂ hx _ => keying_applySuffixes hd t.wrapping hs₂ hw₂ x hx.1
  split
  · rename_i hsuffixes
    refine hcall.mono ?_
    rintro h s₂ - text key ⟨⟩ hspells
    have hnot : ¬IsDescribed (.name text) := by
      rintro ⟨u, hu, hnil, -⟩
      cases hparse.symm.trans hu
      simp [hnil] at hsuffixes
    obtain ⟨u, hu, hnil, -⟩ := hspells.exists_base hnot
    cases hparse.symm.trans hu
    simp [hnil] at hsuffixes
  · rename_i hsuffixes
    have hnil : t.suffixes = [] := by simpa using hsuffixes
    have hself : t.withoutSuffixes = t := by
      cases t
      obtain rfl : _ = [] := hnil
      rfl
    split
    · rename_i hformat
      have hboth := (hdeclare _ (.name t.format) hw₁).and (hkeyed _ _ hw₁ hs₁)
      refine Ensures.mono hboth ?_ fun _ _ he => he.2
      rintro h s₂ ⟨⟨-, -, -, hdeclared⟩, hs₂, -⟩
      refine ⟨hs₂, ?_⟩
      rintro text key ⟨⟩ hspells
      have hnot : ¬IsDescribed (.name text) := by
        rintro ⟨u, hu, -, hself⟩
        cases hparse.symm.trans hu
        exact hformat hself
      obtain ⟨u, hu, -, hbase⟩ := hspells.exists_base hnot
      cases hparse.symm.trans hu
      rw [hself] at hbase
      exact hs₂.found _ key h hdeclared hbase
    · rename_i hformat
      exact keying_declareDescribed hdeclare hkeyed hd ⟨t, hparse, hnil, not_not.mp hformat⟩ hs₁ hw₁

/-- A reference is remembered at the end; a text that is no type name is known by then. -/
theorem declaresKeyed_declareOnce : DeclaresKeyed describe valid (declareOnce task declare) := by
  intro ref s hw hs
  have hput : Keying describe valid s (declareNew task declare ref) (IsFound describe ref) →
      Keying describe valid s (do
        let h ← declareNew task declare ref
        modify fun s => { s with declared := s.declared.put ref h }
        return h) fun _ _ => True := by
    intro hnew
    unfold Keying Ensures at hnew ⊢
    cases hr : declareNew task declare ref s with
    | ok h t =>
      rw [hr] at hnew
      rw [run_bind_ok hr]
      exact ⟨hnew.1.put hnew.2, trivial⟩
    | error e t =>
      rw [hr] at hnew
      rw [run_bind_error hr]
      exact hnew
  unfold declareOnce
  refine keying_get_bind ?_
  split
  · exact keying_pure hs trivial
  · cases ref with
    | id n =>
      exact hput (keying_declareDescribed hdeclare hkeyed hd trivial hs hw)
    | name text =>
      cases hparse : TypeName.parse text with
      | ok t => exact hput (keying_declareName hdeclare hkeyed hd hparse hs hw)
      | error e => exact keying_refused hparse hs hw

end

variable (hd : Describes task describe valid)

include hd

/-- **Declaring keeps what is known of keys**, however many references it may follow. -/
theorem declaresKeyed_declare (n : Nat) :
    DeclaresKeyed describe valid (NativeTypes.Resolver.declare task n) := by
  induction n with
  | zero => exact fun _ _ _ hs => keying_throw hs _ _
  | succ n ih => exact declaresKeyed_declareOnce (declares_declare task n) ih hd

/-! ## 3. Requests -/

/-- Requests are rows of declarations and of edits that register nothing. -/
theorem Keyed.requests (h : Requests task s s') (hw : WellFormed s)
    (hs : Keyed describe valid s) : Keyed describe valid s' := by
  refine requests_keep (fun n ref t hw ht => ?_) (fun t t' hknown ht => ?_) h hw hs
  · exact Ensures.mono (declaresKeyed_declare hd n ref t hw ht) (fun _ _ h => h.1) fun _ _ h => h
  · obtain ⟨hget, hkey⟩ := keys_of_known hknown
    simp only [known, Prod.mk.injEq] at hknown
    obtain ⟨hsession, hshapes, hdeclared, -⟩ := hknown
    exact ht.reframe ⟨hsession ▸ ht.truthful.1, fun r a ha => ht.truthful.2 r a (hshapes ▸ ha)⟩
      hget hkey hdeclared

/-- **After any requests, whether they returned or stopped**, primary keys arise from what is
described, other keys are names of typedefs, and whoever was declared by the name of a struct or
union is found under its key. -/
theorem Attempted.keyed (h : Attempted task valid s) : Keyed describe valid s := by
  obtain ⟨session, hvalid, hs⟩ := h
  exact Keyed.requests hd hs (settled_start task.module session).toWellFormed (.start hvalid)

end NativeTypes.Resolver
