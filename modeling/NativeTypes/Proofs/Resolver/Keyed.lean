/-
NativeTypes.Proofs.Resolver.Keyed — where the keys of instances come from.

A key is made when something is declared, and nothing else makes keys. So the
primary key of an instance tells what was declared first under it:

* `Arises` — the keys that instances are registered under: those of scalars, of
  pointers, arrays and functions over such keys, of described enumerations,
  structs and unions, and of placeholders.
* `IsAlias` — the keys that an instance can have besides: the names of
  typedefs. A typedef of a struct by the name of the struct itself does not
  count, since the key is taken by then.
* `Shape.fixedKey?` — the key of a struct or union without type arguments. It
  is known before anything is declared.

`Keyed` says of a state that primary keys arise, that the other keys are
aliases, and that whatever was declared by a name of a struct or union is found
under its fixed key. A run that keeps this, whether it returns or stops, is
`Keying`; here are the rules for that and the single steps.

The exception about typedefs is what makes the third part necessary. A typedef
`struct S S` adds the name `S` to the instance of its target. Whether that is a
second name or none depends on the registry at that moment; that it is none has
to be known from what the target was declared as, and for that the key of a
struct must be known without looking into the registry. Where arguments are
types there is no such key, but then the name of a typedef is not the key
either, as it has no arguments.

A key may arise because of a text that was declared: the names of placeholders
and of what was refused are texts. So what arises grows with what was met, and
is monotone in it (`Arises.mono`).
-/
import NativeTypes.Proofs.Resolver.Plain

namespace NativeTypes

/-- The keys of template arguments that are all numbers. -/
def fixedArguments? : List Argument → Option (List KeyArgument)
  | [] => some []
  | .number n :: rest => (fixedArguments? rest).map (.number n :: ·)
  | .type _ :: _ => none

/-- Keys with the same numbers are those that were known. -/
theorem eq_of_map_number? {as : List Argument} {keys fixed : List KeyArgument}
    (hkeys : keys.map KeyArgument.number? = as.map Argument.number?)
    (hfixed : fixedArguments? as = some fixed) : keys = fixed := by
  induction as generalizing keys fixed with
  | nil =>
    cases hfixed
    exact List.map_eq_nil_iff.mp hkeys
  | cons a rest ih =>
    cases a with
    | type t => cases hfixed
    | number n =>
      obtain ⟨fixed, hrest, rfl⟩ := Option.map_eq_some_iff.mp hfixed
      obtain ⟨k, keys, rfl, hk, htail⟩ := List.map_eq_cons_iff.mp hkeys
      cases k with
      | key k => cases hk
      | number m =>
        cases hk
        rw [ih htail hrest]

/-- Keys that are all numbers are known from the arguments. -/
theorem fixedArguments?_of_map_number? {as : List Argument} {keys : List KeyArgument}
    (hkeys : keys.map KeyArgument.number? = as.map Argument.number?)
    (hall : ∀ k ∈ keys, k.number?.isSome = true) : fixedArguments? as = some keys := by
  induction as generalizing keys with
  | nil =>
    obtain rfl := List.map_eq_nil_iff.mp hkeys
    rfl
  | cons a rest ih =>
    obtain ⟨k, keys, rfl, hk, htail⟩ := List.map_eq_cons_iff.mp hkeys
    obtain ⟨hnumber, hrest⟩ := List.forall_mem_cons.mp hall
    cases k with
    | key k => cases hnumber
    | number n =>
      cases a with
      | type t => cases hk
      | number m =>
        cases hk
        rw [fixedArguments?, ih htail hrest]
        rfl

/-- The key of a struct or union whose name has no types among the arguments of its last
segment. -/
def Shape.fixedKey? (shape : Shape) : Option Key :=
  match (TypeName.parsePlain? shape.title).filter TypeName.isTemplate with
  | none => some (Resolver.keyOfName shape.title)
  | some t => (fixedArguments? t.arguments).map (.mk t.baseName)

/-- A template is spelled by its stem and its arguments. -/
theorem TypeName.format_of_isTemplate {t : TypeName} (ht : t.isTemplate = true)
    (hsuffixes : t.suffixes = []) : t.format = t.baseName ++
      String.ofList ('<' :: List.intercalate argumentMark
        (spellArguments t.arguments) ++ ['>']) := by
  obtain ⟨base, suffixes⟩ := t
  obtain rfl : suffixes = [] := hsuffixes
  cases base with
  | builtin type => cases ht
  | path scopes last =>
    cases last with
    | plain name => cases ht
    | template name arguments =>
      have hspell : TypeName.spell (.mk (.path scopes (.template name arguments)) []) =
          List.intercalate scopeMark (spellSegments scopes ++ [name.toList]) ++
            ('<' :: List.intercalate argumentMark (spellArguments arguments) ++ ['>']) := by
        simp [TypeName.spell, BaseName.spell, Segment.spell, intercalate_concat]
      rw [TypeName.format, hspell, String.ofList_append]
      rfl

namespace Resolver

variable {σ α β : Type} {task : Task σ} {describe : Description} {valid : σ → Prop}
  {declare : Ref → Run σ Handle} {s s' : State σ} {key : Key} {h : Handle}

/-! ## 1. Keys -/

/-- The keys that instances are registered under, where some texts were declared. -/
inductive Arises (describe : Description) (met : String → Prop) : Key → Prop
  | primitive (kind : Primitive) : Arises describe met (.primitive kind)
  | pointer {target : Key} : Arises describe met target → Arises describe met (.pointer target)
  | array {element : Key} (length : Option Int) : Arises describe met element →
      Arises describe met (.array element length)
  | function {result : Key} {parameters : List Key} (variadic : Bool) :
      Arises describe met result → (∀ p ∈ parameters, Arises describe met p) →
      Arises describe met (.function result parameters variadic)
  | enumeration {ref : Ref} {shape : Shape} : describe ref = some shape →
      shape.kind = .enumeration → Arises describe met (keyOfName shape.title)
  | aggregate {ref : Ref} {shape : Shape} : describe ref = some shape → shape.isAggregate = true →
      (TypeName.parsePlain? shape.title).filter TypeName.isTemplate = none →
      Arises describe met (keyOfName shape.title)
  | template {ref : Ref} {shape : Shape} {t : TypeName} {keys : List KeyArgument} :
      describe ref = some shape → shape.isAggregate = true →
      (TypeName.parsePlain? shape.title).filter TypeName.isTemplate = some t →
      (∀ k, .key k ∈ keys → Arises describe met k) →
      keys.map KeyArgument.number? = t.arguments.map Argument.number? →
      Arises describe met (.mk t.baseName keys)
  /-- The placeholder of a type that is not described, or not to the end. -/
  | label {ref : Ref} : IsDescribed ref →
      (∀ shape, describe ref = some shape → shape.isAggregate = false) →
      Arises describe met (.named (labelOf ref))
  /-- The placeholder of a described type that cannot be modelled. -/
  | unmodelled {ref : Ref} {shape : Shape} : describe ref = some shape →
      shape.kind = .typedef ∨ shape.kind = .unsupported → shape.name.isEmpty = false →
      Arises describe met (.named shape.name)
  /-- The placeholder of a text that is no type name. -/
  | refused {text : String} {e : NameSyntaxError} : met text → TypeName.parse text = .error e →
      Arises describe met (.named (String.ofList (Text.trim text.toList)))

/-- More texts, more keys. -/
theorem Arises.mono {met met' : String → Prop} (hle : ∀ text, met text → met' text)
    (h : Arises describe met key) : Arises describe met' key := by
  induction h with
  | primitive kind => exact .primitive kind
  | pointer _ ih => exact .pointer ih
  | array length _ ih => exact .array length ih
  | function variadic _ _ ih ihs => exact .function variadic ih ihs
  | enumeration hshape hkind => exact .enumeration hshape hkind
  | aggregate hshape hkind hplain => exact .aggregate hshape hkind hplain
  | template hshape hkind ht _ hnumbers ih => exact .template hshape hkind ht ih hnumbers
  | label hdescribed hnot => exact .label hdescribed hnot
  | unmodelled hshape hkind hname => exact .unmodelled hshape hkind hname
  | refused hmet hparse => exact .refused (hle _ hmet) hparse

/-- The text spells a struct or union, which is known by this key. -/
def SpellsAggregate (describe : Description) (text : String) (key : Key) : Prop :=
  ∃ base shape, Unwraps text base [] ∧ describe (.name base) = some shape ∧
    shape.isAggregate = true ∧ shape.fixedKey? = some key

/-- The key is the name of a typedef, and not of a typedef of that very struct or union. -/
def IsAlias (describe : Description) (key : Key) : Prop :=
  ∃ ref shape target, describe ref = some shape ∧ shape.kind = .typedef ∧
    shape.target = some target ∧ key = keyOfName shape.name ∧
    ∀ text, target = .name text → ¬SpellsAggregate describe text key

/-- The text was declared. -/
def Met (s : State σ) (text : String) : Prop := (s.declared.get? (.name text)).isSome = true

/-- What was declared stays so. -/
theorem Grows.met (hg : Grows s s') {text : String} (h : Met s text) : Met s' text := by
  obtain ⟨x, hx⟩ := Option.isSome_iff_exists.mp h
  exact Option.isSome_iff_exists.mpr ⟨x, hg.declared _ x hx⟩

/-- Every text that was declared is a type name. -/
def allParsed (s : State σ) : Bool :=
  s.declared.all fun (e : Ref × Handle) =>
    match e.1 with
    | .name text => (TypeName.parse? text).isSome
    | .id _ => true

theorem parse?_of_allParsed (h : allParsed s = true) {text : String} (hmet : Met s text) :
    (TypeName.parse? text).isSome = true := by
  obtain ⟨x, hx⟩ := Option.isSome_iff_exists.mp hmet
  exact List.all_eq_true.mp h _ (Assoc.mem_of_get? hx)

/-- What is known of the keys in a state. -/
structure Keyed (describe : Description) (valid : σ → Prop) (s : State σ) : Prop where
  truthful : Truthful describe valid s
  arises : ∀ h key, s.registry.keyOf? h = some key → Arises describe (Met s) key
  own : ∀ key h, s.registry.get? key = some h →
    s.registry.keyOf? h = some key ∨ IsAlias describe key
  found : ∀ text key h, s.declared.get? (.name text) = some h →
    SpellsAggregate describe text key → s.registry.get? key = some h

namespace Keyed

theorem start {session : σ} (hvalid : valid session) :
    Keyed describe valid (State.start session) where
  truthful := ⟨hvalid, fun _ _ h => by cases h⟩
  arises := fun _ _ h => by cases h
  own := fun _ _ h => by cases h
  found := fun _ _ _ h => by cases h

/-- The keys and the declared references are the same. -/
theorem reframe (hs : Keyed describe valid s) (htruth : Truthful describe valid s')
    (hget : ∀ key, s'.registry.get? key = s.registry.get? key)
    (hkeyOf : ∀ h, s'.registry.keyOf? h = s.registry.keyOf? h)
    (hdeclared : s'.declared = s.declared) : Keyed describe valid s' where
  truthful := htruth
  arises := fun h key hk => by
    rw [hkeyOf] at hk
    unfold Met
    rw [hdeclared]
    exact hs.arises h key hk
  own := fun key h hh => by
    rw [hget] at hh
    rw [hkeyOf]
    exact hs.own key h hh
  found := fun text key h hh => by
    rw [hdeclared] at hh
    rw [hget]
    exact hs.found text key h hh

/-- One more instance, under a free key; something may be declared meanwhile. -/
theorem push (hs : Keyed describe valid s) (hw : WellFormed s)
    (hfree : s.registry.get? key = none) (ha : Arises describe (Met s') key)
    (hregistry : s'.registry = s.registry.bind key s.graph.count)
    (hsession : s'.session = s.session) (hshapes : s'.shapes = s.shapes)
    (hmet : ∀ text, Met s text → Met s' text)
    (hfound : ∀ text k x, s'.declared.get? (.name text) = some x →
      SpellsAggregate describe text k → s.registry.get? k = some x) : Keyed describe valid s' := by
  have hnew : s'.registry.keyOf? s.graph.count = some key := by
    rw [hregistry, Registry.keyOf?, Registry.keysOf_bind, if_pos rfl, hw.keysOf_count]
    rfl
  have hold : ∀ x, x ≠ s.graph.count → s'.registry.keyOf? x = s.registry.keyOf? x := by
    intro x hx
    rw [hregistry, Registry.keyOf?, Registry.keysOf_bind, if_neg (Ne.symm hx), Registry.keyOf?]
  refine ⟨?_, fun x k hk => ?_, fun k x hx => ?_, fun text k x hx hspells => ?_⟩
  · unfold Truthful
    rw [hsession, hshapes]
    exact hs.truthful
  · by_cases hx : x = s.graph.count
    · rw [hx, hnew] at hk
      cases hk
      exact ha
    · exact (hs.arises x k (hold x hx ▸ hk)).mono hmet
  · rw [hregistry, Registry.get?_bind] at hx
    split at hx
    · rename_i heq
      cases hx
      exact .inl (heq ▸ hnew)
    · rw [hold x (Nat.ne_of_lt (hw.lt_count_of_get? hx))]
      exact hs.own k x hx
  · rw [hregistry]
    exact (Registry.widens_bind _ hfree _).get? _ _ (hfound text k x hx hspells)

/-- One more key of an instance that has one. -/
theorem also (hs : Keyed describe valid s) (hw : WellFormed s) (hh : InGraph h s)
    (hfree : s.registry.get? key = none) (ha : IsAlias describe key) :
    Keyed describe valid { s with registry := s.registry.bind key h } := by
  obtain ⟨primary, hprimary⟩ := hw.exists_key hh
  have hwidens := Registry.widens_bind s.registry hfree h
  have hkeyOf : ∀ x, (s.registry.bind key h).keyOf? x = s.registry.keyOf? x := by
    intro x
    by_cases hx : h = x
    · rw [← hx, hprimary, hwidens.keyOf? _ _ hprimary]
    · rw [Registry.keyOf?, Registry.keysOf_bind, if_neg hx, Registry.keyOf?]
  refine ⟨hs.truthful, fun x k hk => hs.arises x k (hkeyOf x ▸ hk), fun k x hx => ?_,
    fun text k x hx hspells => hwidens.get? _ _ (hs.found text k x hx hspells)⟩
  have hx : (s.registry.bind key h).get? k = some x := hx
  rw [Registry.get?_bind] at hx
  split at hx
  · rename_i heq
    exact .inr (heq ▸ ha)
  · show (s.registry.bind key h).keyOf? x = some k ∨ _
    rw [hkeyOf]
    exact hs.own k x hx

/-- One more declared reference; a name of a struct or union is found under its key. -/
theorem put (hs : Keyed describe valid s) {ref : Ref}
    (hfound : ∀ text key, ref = .name text → SpellsAggregate describe text key →
      s.registry.get? key = some h) :
    Keyed describe valid { s with declared := s.declared.put ref h } where
  truthful := hs.truthful
  arises := fun x key hk => (hs.arises x key hk).mono fun text hmet => by
    show ((s.declared.put ref h).get? (.name text)).isSome = true
    rw [Assoc.get?_put]
    split
    · rfl
    · exact hmet
  own := hs.own
  found := fun text key x hx hspells => by
    have hx : (s.declared.put ref h).get? (.name text) = some x := hx
    rw [Assoc.get?_put] at hx
    split at hx
    · rename_i heq
      cases hx
      exact hfound text key heq hspells
    · exact hs.found text key x hx hspells

end Keyed

/-! ## 2. Runs -/

/-- A run from `s` keeps what is known of keys, whether it returns or stops; what it returns
satisfies `Q`. -/
def Keying (describe : Description) (valid : σ → Prop) (s : State σ) (run : Run σ α)
    (Q : α → State σ → Prop) : Prop :=
  Ensures run s (fun a s' => Keyed describe valid s' ∧ Q a s') fun _ s' => Keyed describe valid s'

variable (hs : Keyed describe valid s)

include hs in
theorem keying_pure {a : α} {Q : α → State σ → Prop} (ha : Q a s) :
    Keying describe valid s (pure a) Q :=
  ⟨hs, ha⟩

include hs in
theorem keying_throw (e : Stop) (Q : α → State σ → Prop) :
    Keying describe valid s (throw e) Q :=
  hs

/-- Reading the state first. -/
theorem keying_get_bind {next : State σ → Run σ β} {Q : β → State σ → Prop}
    (hnext : Keying describe valid s (next s) Q) : Keying describe valid s (get >>= next) Q :=
  hnext

/-- What the first run hands to the rest is said by how it steps and by how it keeps keys. -/
theorem keying_bind {run : Run σ α} {next : α → Run σ β} {P Q : α → State σ → Prop}
    {R : β → State σ → Prop} (hsteps : Steps s run P) (hrun : Keying describe valid s run Q)
    (hnext : ∀ a s', WellFormed s' → Grows s s' → Keyed describe valid s' → P a s' → Q a s' →
      Keying describe valid s' (next a) R) : Keying describe valid s (run >>= next) R := by
  refine ensures_bind (Ensures.mono (hsteps.and hrun) (fun _ _ h => h) fun _ _ h => h.2) ?_
  rintro a s' ⟨⟨hw, hg, hP⟩, hk, hQ⟩
  exact hnext a s' hw hg hk hP hQ

theorem Keying.mono {run : Run σ α} {P Q : α → State σ → Prop}
    (hrun : Keying describe valid s run P) (h : ∀ a s', P a s' → Q a s') :
    Keying describe valid s run Q :=
  Ensures.mono hrun (fun a s' ⟨hk, ha⟩ => ⟨hk, h a s' ha⟩) fun _ _ he => he

/-! ## 3. The registry -/

variable (hw : WellFormed s)

section

include hs

theorem keying_report (d : Diagnostic) :
    Keying describe valid s (report d : Run σ Unit) fun _ s' =>
      s' = { s with diagnostics := s.diagnostics ++ [d] } :=
  ⟨hs.reframe hs.truthful (fun _ => rfl) (fun _ => rfl) rfl, rfl⟩

/-- The key of an instance arose when the instance was registered. -/
theorem keying_keyOf (x : Handle) :
    Keying describe valid s (keyOf x) fun key _ => Arises describe (Met s) key := by
  unfold keyOf
  refine keying_get_bind ?_
  split
  · rename_i key hkey
    exact keying_pure hs (hs.arises x key hkey)
  · exact keying_throw hs _ _

theorem keying_needWritable (writable : Bool) :
    Keying describe valid s (needWritable writable : Run σ Unit) fun _ _ => True := by
  unfold needWritable
  split
  · exact keying_pure hs trivial
  · exact keying_throw hs _ _

include hw

theorem keying_namedKey (name : String) :
    Keying describe valid s (namedKey name) fun key s' => key = keyOfName name ∧ s' = s := by
  unfold namedKey keyOfName
  cases TypeName.parsePlain? name with
  | none => exact keying_pure hs ⟨rfl, rfl⟩
  | some t =>
    refine keying_bind (steps_needWritable hw _) (keying_needWritable hs _) ?_
    rintro _ _ - - hs₁ ⟨rfl, -⟩ -
    exact keying_pure hs₁ ⟨rfl, rfl⟩

/-- A key that arises is registered, if it is free. -/
theorem keying_register (i : Instance) (ha : Arises describe (Met s) key) :
    Keying describe valid s (register task key i) fun h s' => s'.registry.get? key = some h := by
  unfold Keying Ensures
  cases hfree : s.registry.get? key with
  | none =>
    rw [register_run hfree]
    refine ⟨hs.push hw hfree ha rfl rfl rfl (fun _ h => h) hs.found, ?_⟩
    show (s.registry.bind key s.graph.count).get? key = some s.graph.count
    rw [Registry.get?_bind, if_pos rfl]
  | some holder =>
    have hne : holder ≠ s.graph.count := Nat.ne_of_lt (hw.lt_count_of_get? hfree)
    simp only [register, run_get_bind, Registry.register, hfree, if_neg hne]
    exact hs

/-- Or found. -/
theorem keying_ensure (i : Instance) (ha : Arises describe (Met s) key) :
    Keying describe valid s (ensure task key i) fun h s' => s'.registry.get? key = some h := by
  unfold ensure
  refine keying_get_bind ?_
  split
  · rename_i h hh
    exact keying_pure hs hh
  · exact keying_register hs hw i ha

/-- A placeholder is found by its name, or registered under it. -/
theorem keying_undefined {name : String} (reason : String)
    (ha : Arises describe (Met s) (.named name)) :
    Keying describe valid s (undefined task name reason) fun _ _ => True := by
  unfold undefined
  refine keying_get_bind ?_
  split
  · exact keying_pure hs trivial
  · refine keying_bind (steps_report hw (.inl rfl)) (keying_report hs _) ?_
    rintro _ s₁ hw₁ - hs₁ - rfl
    exact (keying_register hs₁ hw₁ _ ha).mono fun _ _ _ => trivial

/-- A typedef of the struct or union that the key belongs to finds the key taken. -/
theorem keying_addAlias (hh : InGraph h s)
    (ha : s.registry.get? key = none → IsAlias describe key) :
    Keying describe valid s (addAlias task key h) fun _ _ => True := by
  have hknown : (Assoc.get? s.registry.keys h).isSome = true :=
    (hw.coherent.isSome_keyOf?_iff h).mp ((hw.registered h).mpr hh)
  unfold addAlias
  refine keying_get_bind ?_
  unfold Registry.addAlias
  cases hfree : s.registry.get? key with
  | some holder => exact ⟨hs, trivial⟩
  | none =>
    simp only [hknown, if_true]
    exact ⟨hs.also hw hh hfree (ha hfree), trivial⟩

/-! ## 4. The source -/

variable (hd : Describes task describe valid)

include hd

omit hw in
theorem keying_checkCancelled :
    Keying describe valid s (checkCancelled task) fun _ _ => True := by
  have hpolled : Keyed describe valid
      { s with session := (task.source.stopRequested s.session).2 } :=
    hs.reframe ⟨hd.polled hs.truthful.1, hs.truthful.2⟩ (fun _ => rfl) (fun _ => rfl) rfl
  unfold Keying Ensures
  rw [checkCancelled_run]
  split <;> rename_i heq
  · split at heq
    · cases heq
    · cases heq
      exact ⟨hpolled, trivial⟩
  · split at heq
    · cases heq
      exact hpolled
    · cases heq

/-- The answer is remembered, and it is the description. -/
theorem keying_query (ref : Ref) :
    Keying describe valid s (query task ref) fun answer _ => answer = describe ref := by
  unfold query
  refine keying_get_bind ?_
  split
  · rename_i answer hanswer
    exact keying_pure hs (hs.truthful.2 ref answer hanswer)
  · refine keying_bind (steps_checkCancelled task hw) (keying_checkCancelled hs hd) ?_
    intro _ s₁ _ _ hs₁ _ _
    refine keying_get_bind ?_
    have hvalid := hd.looked ref hs₁.truthful.1
    unfold Keying Ensures
    simp only [run_modify_bind]
    cases hanswer : (task.source.lookup s₁.session task.module ref).1 with
    | error e =>
      simp only [run_throw]
      exact hs₁.reframe ⟨hvalid, hs₁.truthful.2⟩ (fun _ => rfl) (fun _ => rfl) rfl
    | ok answer =>
      have heq : answer = describe ref := hd.answers hs₁.truthful.1 hanswer
      simp only [run_modify_bind, run_pure]
      refine ⟨hs₁.reframe ⟨hvalid, fun r a ha => ?_⟩ (fun _ => rfl) (fun _ => rfl) rfl, heq⟩
      rw [Assoc.get?_put] at ha
      split at ha
      · rename_i hr
        cases ha
        exact hr ▸ heq
      · exact hs₁.truthful.2 r a ha

theorem keying_pointerSize : Keying describe valid s (pointerSize task) fun _ _ => True := by
  unfold pointerSize
  refine keying_get_bind ?_
  split
  · exact keying_pure hs trivial
  · refine keying_bind (steps_checkCancelled task hw) (keying_checkCancelled hs hd) ?_
    intro _ s₁ _ _ hs₁ _ _
    refine keying_get_bind ?_
    split
    · exact keying_throw hs₁ _ _
    · exact ⟨hs₁.reframe hs₁.truthful (fun _ => rfl) (fun _ => rfl) rfl, trivial⟩

/-! ## 5. Types without a name of their own -/

omit hd in
theorem keying_primitive (kind : Primitive) :
    Keying describe valid s (primitive task kind) fun _ _ => True :=
  (keying_ensure hs hw _ (.primitive kind)).mono fun _ _ _ => trivial

/-- The key is made of that of the target. -/
theorem keying_pointer (target : Handle) (size : Option Int) :
    Keying describe valid s (pointer task target size) fun _ _ => True := by
  unfold pointer
  refine keying_bind (steps_keyOf hw target) (keying_keyOf hs target) ?_
  rintro key s₁ hw₁ - hs₁ ⟨rfl, -⟩ hkey
  refine keying_get_bind ?_
  split
  · exact keying_pure hs₁ trivial
  · have hnext : ∀ (n : Int) (s₂ : State σ), WellFormed s₂ → Grows s₁ s₂ →
        Keyed describe valid s₂ →
        Keying describe valid s₂ (register task key.pointer (.pointer target n))
          fun _ _ => True := fun n s₂ hw₂ hg hs₂ =>
      (keying_register hs₂ hw₂ _ (.pointer (hkey.mono fun _ => hg.met))).mono fun _ _ _ => trivial
    simp only
    split
    · split
      · exact keying_bind (steps_pointerSize task hw₁) (keying_pointerSize hs₁ hw₁ hd)
          fun n s₂ hw₂ hg hs₂ _ _ => hnext n s₂ hw₂ hg hs₂
      · exact hnext _ s₁ hw₁ (.refl _) hs₁
    · exact keying_bind (steps_pointerSize task hw₁) (keying_pointerSize hs₁ hw₁ hd)
        fun n s₂ hw₂ hg hs₂ _ _ => hnext n s₂ hw₂ hg hs₂

omit hd in
/-- The key is made of that of the element and of the length. -/
theorem keying_array (element : Handle) (length : Option Int) :
    Keying describe valid s (array task element length) fun _ _ => True := by
  unfold array
  refine keying_bind (steps_keyOf hw element) (keying_keyOf hs element) ?_
  rintro key s₁ hw₁ - hs₁ ⟨rfl, -⟩ hkey
  refine keying_bind (steps_needWritable hw₁ _) (keying_needWritable hs₁ _) ?_
  rintro _ _ hw₂ - hs₂ ⟨rfl, -⟩ -
  exact (keying_ensure hs₂ hw₂ _ (.array length hkey)).mono fun _ _ _ => trivial

omit hs hw

/-- Pointers and arrays one around the other. -/
theorem keying_applySuffixes (suffixes : List Suffix) (hs : Keyed describe valid s)
    (hw : WellFormed s) (x : Handle) (hx : InGraph x s) :
    Keying describe valid s (applySuffixes task x suffixes) fun _ _ => True := by
  induction suffixes generalizing s x with
  | nil => exact keying_pure hs trivial
  | cons suffix rest ih =>
    have hfirst : Keying describe valid s (applySuffix task x suffix) fun _ _ => True := by
      cases suffix with
      | array length => exact keying_array hs hw x length
      | pointer => exact keying_pointer hs hw hd x none
      | reference => exact keying_pointer hs hw hd x none
    refine keying_bind (steps_applySuffix task hw x suffix) hfirst ?_
    rintro y s₁ hw₁ - hs₁ ⟨-, key, -, hy⟩ -
    exact ih hs₁ hw₁ y (hw₁.lt_count_of_get? hy)

end

end Resolver

end NativeTypes
