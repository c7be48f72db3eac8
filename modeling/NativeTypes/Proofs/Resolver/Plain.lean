/-
NativeTypes.Proofs.Resolver.Plain — modules of structs and unions, where a key
says what is known by it.

In a module without typedefs, enumerations and signatures nothing takes a
second key, and scalars, described types and placeholders cannot take each
other's (`PlainDescription`). So the key of an instance says what it is
(`Content`), and the spelling of a reference says the key of what it is
declared as (`Unwraps`, `Key.wrap`), whatever was declared before it. This is
kept by every function of the declare phase that returns
(`declaresPlain_declare`), and all that is placed on the way is the type under
the suffixes of the reference.

In other modules none of this is so: an enumeration may take the key of a
scalar, and who comes first then decides what a name means. The conditions are
what is used below, each in one place, and not a class of modules that was
found convenient. A type that is described under a canonical name has that name
as its key, and a struct that is no template has nothing in its key but its
name; so two instances with one key were told of one shape.

The invariant has two halves that cannot be shown apart. That the key of an
instance says what it is needs that a key is given to what its spelling says,
and that needs that what is found under a key, instead of being made, is what
the key says.
-/
import NativeTypes.Proofs.Resolver.Remembered

namespace NativeTypes

namespace Key

/-- The key of what suffixes make of an instance with this key, the first one innermost. -/
def wrap (key : Key) (suffixes : List Suffix) : Key := suffixes.foldl Suffix.key key

/-- Suffixes make the one key of the other. -/
def Within (k key : Key) : Prop := ∃ suffixes, key = k.wrap suffixes

theorem Within.refl (key : Key) : key.Within key := ⟨[], rfl⟩

/-- Suffixes after suffixes. -/
theorem Within.trans {k key key' : Key} (h : k.Within key) (h' : key.Within key') :
    k.Within key' := by
  obtain ⟨suffixes, rfl⟩ := h
  obtain ⟨more, rfl⟩ := h'
  exact ⟨suffixes ++ more, (List.foldl_append ..).symm⟩

theorem within_suffix (key : Key) (suffix : Suffix) : key.Within (suffix.key key) :=
  ⟨[suffix], rfl⟩

end Key

/-- The aggregate as it was made, without parts. -/
def Aggregate.blank (a : Aggregate) : Aggregate :=
  { a with bases := [], fields := [], stage := .growing }

namespace Resolver

variable {σ α : Type} {task : Task σ} {describe : Description} {valid : σ → Prop} {size : Int}
  {declare : Ref → Run σ Handle} {s s' t : State σ} {base : String} {key : Key} {h : Handle}

/-! ## 1. Spellings -/

/-- The text spells the type `base`, which is canonical, under these suffixes, the first one
innermost. -/
inductive Unwraps : String → String → List Suffix → Prop
  | bare {text : String} : IsDescribed (.name text) → Unwraps text text []
  | wrapped {text base : String} {t : TypeName} {suffixes : List Suffix} :
      ¬IsDescribed (.name text) → TypeName.parse text = .ok t →
      Unwraps t.withoutSuffixes.format base suffixes →
      Unwraps text base (suffixes ++ t.wrapping)

/-- A text spells one type under one row of suffixes. -/
theorem Unwraps.eq {text base' : String} {suffixes suffixes' : List Suffix}
    (h : Unwraps text base suffixes) (h' : Unwraps text base' suffixes') :
    base = base' ∧ suffixes = suffixes' := by
  induction h generalizing base' suffixes' with
  | bare hdescribed =>
    cases h' with
    | bare => exact ⟨rfl, rfl⟩
    | wrapped hnot => exact absurd hdescribed hnot
  | wrapped hnot hparse _ ih =>
    cases h' with
    | bare hdescribed => exact absurd hdescribed hnot
    | wrapped _ hparse' hrest =>
      cases hparse.symm.trans hparse'
      obtain ⟨rfl, rfl⟩ := ih hrest
      exact ⟨rfl, rfl⟩

/-- What is read is read without a fault. -/
theorem parse_of_parse? {text : String} {t : TypeName} (h : TypeName.parse? text = some t) :
    TypeName.parse text = .ok t := by
  rw [TypeName.parse?] at h
  cases hparse : TypeName.parse text with
  | ok u =>
    rw [hparse] at h
    cases h
    rfl
  | error e =>
    rw [hparse] at h
    cases h

/-- The text is the canonical spelling of a type name without suffixes. -/
def isCanonical (text : String) : Bool :=
  (TypeName.parse? text).any fun t => t.suffixes.isEmpty && t.format == text

theorem isDescribed_of_isCanonical {text : String} (h : isCanonical text = true) :
    IsDescribed (.name text) := by
  obtain ⟨t, hparse, ht⟩ := (Option.any_eq_true _ _).mp h
  obtain ⟨hsuffixes, hformat⟩ := Bool.and_eq_true_iff.mp ht
  exact ⟨t, parse_of_parse? hparse, List.isEmpty_iff.mp hsuffixes, beq_iff_eq.mp hformat⟩

/-- What a text spells is canonical. -/
theorem Unwraps.described {text : String} {suffixes : List Suffix}
    (h : Unwraps text base suffixes) : IsDescribed (.name base) := by
  induction h with
  | bare hdescribed => exact hdescribed
  | wrapped _ _ _ ih => exact ih

theorem isEmpty_of_described {text : String} (h : IsDescribed (.name text)) :
    text.isEmpty = false := by
  obtain ⟨t, hparse, -⟩ := h
  cases hempty : text.isEmpty with
  | false => rfl
  | true =>
    obtain rfl : text = "" := by simpa using hempty
    cases hparse

/-- A canonical name is its own key. -/
theorem keyOfName_of_described {text : String} (h : IsDescribed (.name text)) :
    keyOfName text = .named text := by
  obtain ⟨t, hparse, hsuffixes, hformat⟩ := h
  have hplain : TypeName.parsePlain? text = some t := by
    simp [TypeName.parsePlain?, TypeName.parse?, hparse, hsuffixes, Except.toOption]
  simp only [keyOfName, hplain, hformat]

/-! ## 2. Plain descriptions -/

/-- The key of what a canonical name is declared as: that of a scalar, or its own. -/
def keyOfBase (describe : Description) (base : String) : Key :=
  match describe (.name base) with
  | some shape => if shape.kind = .primitive then .primitive (shape.primitive.getD .void)
      else .named base
  | none => .named base

/-- A canonical name that takes no scalar's key: it is no token but that of `void`, and it does
not lead to the scalar `void` where that name belongs to another type. -/
structure PlainBase (describe : Description) (base : String) : Prop where
  token : Primitive.ofToken? base = none ∨ base = "void"
  scalar : ∀ shape, describe (.name base) = some shape → shape.kind = .primitive →
    shape.primitive.getD .void = .void →
    ∀ other, describe (.name "void") = some other → other.kind = .primitive

/-- A reference to a plain base under suffixes. -/
def PlainRef (describe : Description) (ref : Ref) : Prop :=
  ∃ text base suffixes, ref = .name text ∧ Unwraps text base suffixes ∧ PlainBase describe base

/-- The text spells a plain base under suffixes, and this is the key that it is declared under. -/
def SpellsKey (describe : Description) (text : String) (key : Key) : Prop :=
  ∃ base suffixes, Unwraps text base suffixes ∧ PlainBase describe base ∧
    key = (keyOfBase describe base).wrap suffixes

/-- All that is described are scalars, and structs and unions under their own names which are no
templates; their parts are plain references. -/
structure PlainDescription (describe : Description) : Prop where
  aggregate : ∀ text shape, Shows describe (.name text) shape → shape.kind ≠ .primitive →
    shape.isAggregate = true ∧ shape.name = text ∧
      (TypeName.parsePlain? text).filter TypeName.isTemplate = none
  token : ∀ text shape, Shows describe (.name text) shape → shape.kind ≠ .primitive →
    Primitive.ofToken? text = none ∨ text = "void"
  parts : ∀ text shape, Shows describe (.name text) shape → ∀ ref ∈ shape.partRefs,
    PlainRef describe ref
  void : describe (.name "void") ≠ none

/-! ## 3. Instances by their keys -/

/-- The aggregate that is made for a struct or union of this name. -/
def madeOf (name : String) (shape : Shape) : Aggregate where
  name := (splitName name).2
  scope := (splitName name).1
  size := shape.size
  isUnion := shape.kind = .union

/-- What an instance with a key is but for its parts, and the shape that it was placed with. -/
inductive Content (describe : Description) (size : Int) : Key → Instance → Option Shape → Prop
  | primitive {kind : Primitive} {placed : Option Shape} :
      (kind = .void → ∀ other, describe (.name "void") = some other → other.kind = .primitive) →
      Content describe size (.primitive kind) (.primitive kind) placed
  | pointer {key : Key} {target : Handle} {placed : Option Shape} :
      Content describe size (.pointer key) (.pointer target size) placed
  | array {key : Key} {element : Handle} {length : Option Int} {placed : Option Shape} :
      Content describe size (.array key length) (.array element length) placed
  | aggregate {base : String} {shape : Shape} {a : Aggregate} : Shows describe (.name base) shape →
      shape.isAggregate = true → a.blank = madeOf base shape →
      Content describe size (.named base) (.aggregate a) (some shape)
  | undefined {base : String} {placed : Option Shape} : describe (.name base) = none →
      Primitive.ofToken? base = none →
      Content describe size (.named base) (.undefined base) placed

/-- Every instance has one key, which says what it is; so does the spelling of every reference
that was declared. -/
structure Plain (describe : Description) (valid : σ → Prop) (size : Int) (s : State σ) : Prop where
  truthful : Truthful describe valid s
  sized : ∀ n, s.pointerSize = some n → n = size
  single : ∀ h key, s.registry.keyOf? h = some key → s.registry.keysOf h = [key]
  content : ∀ h key, s.registry.keyOf? h = some key →
    Content describe size key (s.graph.get h) (s.placed.get? h)
  spelled : ∀ text h base suffixes, s.declared.get? (.name text) = some h →
    Unwraps text base suffixes →
    s.registry.keyOf? h = some ((keyOfBase describe base).wrap suffixes)

theorem Content.placed {i : Instance} {placed placed' : Option Shape}
    (hc : Content describe size key i placed)
    (hsame : ∀ shape, placed = some shape → placed' = some shape) :
    Content describe size key i placed' := by
  cases hc with
  | primitive hvoid => exact .primitive hvoid
  | pointer => exact .pointer
  | array => exact .array
  | aggregate hshows hkind hmade =>
    rw [hsame _ rfl]
    exact .aggregate hshows hkind hmade
  | undefined hnone htoken => exact .undefined hnone htoken

/-- What an aggregate takes on is of no account. -/
theorem Content.reshape {a a' : Aggregate} {placed : Option Shape}
    (hc : Content describe size key (.aggregate a) placed) (hblank : a'.blank = a.blank) :
    Content describe size key (.aggregate a') placed := by
  cases hc with
  | aggregate hshows hkind h => exact .aggregate hshows hkind (hblank.trans h)

namespace Plain

theorem start {session : σ} (hvalid : valid session) :
    Plain describe valid size (State.start session) where
  truthful := ⟨hvalid, fun _ _ h => by cases h⟩
  sized := fun _ h => by cases h
  single := fun _ _ h => by cases h
  content := fun _ _ h => by cases h
  spelled := fun _ _ _ _ h => by cases h

/-- An instance is found by its key alone. -/
theorem keyOf?_of_get? (hs : Plain describe valid size s) (hw : WellFormed s)
    (hget : s.registry.get? key = some h) : s.registry.keyOf? h = some key := by
  obtain ⟨k, hk⟩ := hw.exists_key (hw.lt_count_of_get? hget)
  have hmem := (hw.coherent.get?_iff key h).mp hget
  rw [hs.single h k hk] at hmem
  rw [hk, List.mem_singleton.mp hmem]

/-- Keys, answers and declared references stay, and aggregates are those that were made. -/
theorem reshape (hs : Plain describe valid size s) (hsession : s'.session = s.session)
    (hshapes : s'.shapes = s.shapes) (hsize : s'.pointerSize = s.pointerSize)
    (hkeysOf : ∀ h, s'.registry.keysOf h = s.registry.keysOf h)
    (hdeclared : s'.declared = s.declared) (hplaced : s'.placed = s.placed)
    (hgraph : ∀ h, s'.graph.get h = s.graph.get h ∨
      ∃ a a' : Aggregate, s.graph.get h = .aggregate a ∧ s'.graph.get h = .aggregate a' ∧
        a'.blank = a.blank) :
    Plain describe valid size s' := by
  have hkeyOf (h : Handle) : s'.registry.keyOf? h = s.registry.keyOf? h := by
    rw [Registry.keyOf?, hkeysOf, Registry.keyOf?]
  refine ⟨?_, hsize ▸ hs.sized, fun h key hk => ?_, fun h key hk => ?_,
    fun text h base suffixes hh hu => ?_⟩
  · unfold Truthful
    rw [hsession, hshapes]
    exact hs.truthful
  · rw [hkeyOf] at hk
    rw [hkeysOf, hs.single h key hk]
  · rw [hkeyOf] at hk
    have hc := hs.content h key hk
    rw [hplaced]
    rcases hgraph h with hsame | ⟨a, a', ha, ha', hblank⟩
    · rwa [hsame]
    · rw [ha] at hc
      rw [ha']
      exact hc.reshape hblank
  · rw [hdeclared] at hh
    rw [hkeyOf]
    exact hs.spelled text h base suffixes hh hu

end Plain

/-! ## 4. Single steps

Each step of the declare phase that returns either finds its key or registers it. In both cases
the result has the key, and all that was registered lies under suffixes of it (`Gives`). -/

/-- What a run that returns `h` under a key leaves: all that was registered meanwhile lies under
suffixes of that key. -/
structure Gives (describe : Description) (valid : σ → Prop) (size : Int) (key : Key) (s : State σ)
    (h : Handle) (s' : State σ) : Prop where
  plain : Plain describe valid size s'
  keyed : s'.registry.keyOf? h = some key
  only : ∀ x k, s.graph.count ≤ x → s'.registry.keyOf? x = some k → k.Within key

/-- Nothing was registered. -/
theorem Plain.gives (hs : Plain describe valid size s) (hw : WellFormed s)
    (hkey : s.registry.keyOf? h = some key) : Gives describe valid size key s h s :=
  ⟨hs, hkey, fun _ _ hx hk => absurd (hw.lt_count_of_keyOf? hk) (Nat.not_lt.mpr hx)⟩

/-- What is there already is found by its key. -/
theorem Plain.found (hs : Plain describe valid size s) (hw : WellFormed s)
    (hget : s.registry.get? key = some h) : Gives describe valid size key s h s :=
  hs.gives hw (hs.keyOf?_of_get? hw hget)

/-- One more instance, under a free key. -/
theorem Plain.push (hs : Plain describe valid size s) (hw : WellFormed s) {i : Instance}
    (hsession : s'.session = s.session) (hshapes : s'.shapes = s.shapes)
    (hsize : s'.pointerSize = s.pointerSize)
    (hgraph : s'.graph = s.graph.push i)
    (hregistry : s'.registry = s.registry.bind key s.graph.count)
    (hdeclared : s'.declared = s.declared)
    (hplaced : ∀ x shape, s.placed.get? x = some shape → s'.placed.get? x = some shape)
    (hcontent : Content describe size key i (s'.placed.get? s.graph.count)) :
    Gives describe valid size key s s.graph.count s' := by
  have hkeys : s'.registry.keysOf s.graph.count = [key] := by
    rw [hregistry, Registry.keysOf_bind, if_pos rfl, hw.keysOf_count, List.nil_append]
  have hnew : s'.registry.keyOf? s.graph.count = some key := by
    rw [Registry.keyOf?, hkeys, List.head?_cons]
  have hkeysOf : ∀ x, x ≠ s.graph.count → s'.registry.keysOf x = s.registry.keysOf x := by
    intro x hx
    rw [hregistry, Registry.keysOf_bind, if_neg (Ne.symm hx)]
  have hold : ∀ x, x ≠ s.graph.count → s'.registry.keyOf? x = s.registry.keyOf? x := by
    intro x hx
    rw [Registry.keyOf?, hkeysOf x hx, Registry.keyOf?]
  have hkeep : ∀ x k, s.registry.keyOf? x = some k → s'.registry.keyOf? x = some k :=
    fun x k hk => (hold x (Nat.ne_of_lt (hw.lt_count_of_keyOf? hk))).trans hk
  refine ⟨⟨?_, hsize ▸ hs.sized, fun x k hk => ?_, fun x k hk => ?_,
    fun text x base suffixes hx hu => ?_⟩, hnew, fun x k hx hk => ?_⟩
  · unfold Truthful
    rw [hsession, hshapes]
    exact hs.truthful
  · by_cases hx : x = s.graph.count
    · subst hx
      cases hnew.symm.trans hk
      exact hkeys
    · rw [hkeysOf x hx, hs.single x k (hold x hx ▸ hk)]
  · by_cases hx : x = s.graph.count
    · subst hx
      cases hnew.symm.trans hk
      rw [hgraph, Graph.get_push_self]
      exact hcontent
    · rw [hold x hx] at hk
      rw [hgraph, Graph.get_push_of_lt (hw.lt_count_of_keyOf? hk)]
      exact (hs.content x k hk).placed (hplaced x)
  · exact hkeep _ _ (hs.spelled text x base suffixes (hdeclared ▸ hx) hu)
  · by_cases heq : x = s.graph.count
    · subst heq
      cases hnew.symm.trans hk
      exact .refl key
    · exact absurd (hw.lt_count_of_keyOf? (hold x heq ▸ hk)) (Nat.not_lt.mpr hx)

/-- An instance is registered under its key. -/
theorem gives_register (hs : Plain describe valid size s) (hw : WellFormed s) {i : Instance}
    (hcontent : ∀ placed, Content describe size key i placed)
    (hrun : register task key i s = .ok h s') : Gives describe valid size key s h s' := by
  have hfree := (eq_of_register hw hrun).1
  rw [register_run hfree] at hrun
  cases hrun
  exact hs.push hw rfl rfl rfl rfl rfl rfl (fun _ _ hx => hx) (hcontent _)

/-- It is registered unless its key is taken; then what is found is what the key says. -/
theorem gives_ensure (hs : Plain describe valid size s) (hw : WellFormed s) {i : Instance}
    (hcontent : ∀ placed, Content describe size key i placed)
    (hrun : ensure task key i s = .ok h s') : Gives describe valid size key s h s' := by
  cases hget : s.registry.get? key with
  | some x =>
    simp only [ensure, run_get_bind, hget] at hrun
    cases hrun
    exact hs.found hw hget
  | none =>
    simp only [ensure, run_get_bind, hget] at hrun
    exact gives_register hs hw hcontent hrun

/-- A placeholder for a name that is not described. -/
theorem gives_undefined (hs : Plain describe valid size s) (hw : WellFormed s) {reason : String}
    (hnone : describe (.name base) = none) (htoken : Primitive.ofToken? base = none)
    (hrun : undefined task base reason s = .ok h s') :
    Gives describe valid size (.named base) s h s' := by
  cases hget : s.registry.get? (.named base) with
  | some x =>
    simp only [undefined, run_get_bind, hget] at hrun
    cases hrun
    exact hs.found hw hget
  | none =>
    simp only [undefined, run_get_bind, hget] at hrun
    obtain ⟨_, t, hreport, hrun⟩ := bind_eq_ok hrun
    have ht := ((steps_report hw (.inl rfl)).of_ok hreport).1
    obtain ⟨hplain, hgraph⟩ : Plain describe valid size t ∧ t.graph = s.graph := by
      cases hreport
      exact ⟨hs.reshape rfl rfl rfl (fun _ => rfl) rfl rfl fun _ => .inl rfl, rfl⟩
    obtain ⟨hp, hkey, honly⟩ := gives_register hplain ht (fun _ => .undefined hnone htoken) hrun
    exact ⟨hp, hkey, hgraph ▸ honly⟩

/-- An answer of the source is what is described. -/
theorem plain_query (hd : Describes task describe valid) (hs : Plain describe valid size s)
    {ref : Ref} {answer : Option Shape} (hrun : query task ref s = .ok answer s') :
    answer = describe ref ∧ Plain describe valid size s' ∧ s'.graph = s.graph := by
  have heq := eq_of_query hd hs.truthful hrun
  refine ⟨heq, ?_⟩
  cases hknown : s.shapes.get? ref with
  | some shape =>
    simp only [query, run_get_bind, hknown] at hrun
    cases hrun
    exact ⟨hs, rfl⟩
  | none =>
    simp only [query, run_get_bind, hknown] at hrun
    obtain ⟨_, t, hcheck, hrun⟩ := bind_eq_ok hrun
    rw [checkCancelled_run] at hcheck
    split at hcheck
    · cases hcheck
    · cases hcheck
      simp only [run_get_bind, run_modify_bind] at hrun
      cases hanswer : (task.source.lookup (task.source.stopRequested s.session).2 task.module ref).1
        with
      | error e =>
        simp only [hanswer] at hrun
        cases hrun
      | ok shape =>
        simp only [hanswer] at hrun
        cases hrun
        refine ⟨⟨⟨hd.looked ref (hd.polled hs.truthful.1), fun r a ha => ?_⟩, hs.sized, hs.single,
          hs.content, hs.spelled⟩, rfl⟩
        rw [Assoc.get?_put] at ha
        split at ha
        · rename_i hr
          cases ha
          rw [← hr, heq]
        · exact hs.truthful.2 r a ha

/-- The sizes of pointers that a source gives. -/
def Sizes (task : Task σ) (valid : σ → Prop) (size : Int) : Prop :=
  ∀ {session n}, valid session → task.source.pointerSize session task.module = .ok n → n = size

/-- Asking for the size of pointers changes nothing that is compared. -/
theorem plain_pointerSize (hd : Describes task describe valid) (hz : Sizes task valid size)
    (hs : Plain describe valid size s) {n : Int} (hrun : pointerSize task s = .ok n s') :
    n = size ∧ Plain describe valid size s' ∧ s'.graph = s.graph := by
  cases hknown : s.pointerSize with
  | some m =>
    simp only [pointerSize, run_get_bind, hknown] at hrun
    cases hrun
    exact ⟨hs.sized _ hknown, hs, rfl⟩
  | none =>
    simp only [pointerSize, run_get_bind, hknown] at hrun
    obtain ⟨_, t, hcheck, hrun⟩ := bind_eq_ok hrun
    rw [checkCancelled_run] at hcheck
    split at hcheck
    · cases hcheck
    · cases hcheck
      have hvalid := hd.polled hs.truthful.1
      simp only [run_get_bind] at hrun
      cases hanswer : task.source.pointerSize (task.source.stopRequested s.session).2 task.module
        with
      | error e =>
        simp only [hanswer] at hrun
        cases hrun
      | ok m =>
        simp only [hanswer] at hrun
        cases hrun
        have hsize := hz hvalid hanswer
        refine ⟨hsize, ⟨⟨hvalid, hs.truthful.2⟩, fun k hk => ?_, hs.single, hs.content,
          hs.spelled⟩, rfl⟩
        cases hk
        exact hsize

/-! ## 5. Suffixes -/

/-- Two steps one after the other. -/
theorem Gives.trans {key' : Key} {h' : Handle} (hg : Gives describe valid size key s h t)
    (hw : WellFormed t) (hgrows : Grows t s') (hwithin : key.Within key')
    (hg' : Gives describe valid size key' t h' s') : Gives describe valid size key' s h' s' where
  plain := hg'.plain
  keyed := hg'.keyed
  only := fun x k hx hk => by
    by_cases hlt : x < t.graph.count
    · obtain ⟨old, hold⟩ := hw.exists_key hlt
      obtain rfl : old = k := Option.some.inj ((hgrows.keyOf? hold).symm.trans hk)
      exact (hg.only x old hx hold).trans hwithin
    · exact hg'.only x k (Nat.le_of_not_lt hlt) hk

section

variable (hd : Describes task describe valid) (hz : Sizes task valid size)

include hd hz

/-- One suffix: a pointer or an array around what is there. -/
theorem gives_applySuffix (hs : Plain describe valid size s) (hw : WellFormed s)
    (hkey : s.registry.keyOf? h = some key) {suffix : Suffix} {next : Handle}
    (hrun : applySuffix task h suffix s = .ok next s') :
    Gives describe valid size (suffix.key key) s next s' := by
  have hpointer (hrun : pointer task h none s = .ok next s') :
      Gives describe valid size (.pointer key) s next s' := by
    obtain ⟨k, s₁, hkeyOf, hrest⟩ := bind_eq_ok hrun
    obtain ⟨rfl, hk⟩ := keyOf_eq_ok hkeyOf
    cases hkey.symm.trans hk
    cases hget : s₁.registry.get? (.pointer key) with
    | some x =>
      simp only [run_get_bind, hget] at hrest
      cases hrest
      exact hs.found hw hget
    | none =>
      simp only [run_get_bind, hget] at hrest
      obtain ⟨n, t, hsize, hlast⟩ := bind_eq_ok hrest
      obtain ⟨rfl, hplain, hgraph⟩ := plain_pointerSize hd hz hs hsize
      have ht := ((steps_pointerSize task hw).of_ok hsize).1
      obtain ⟨hp, hk, honly⟩ := gives_register hplain ht (fun _ => .pointer) hlast
      exact ⟨hp, hk, hgraph ▸ honly⟩
  cases suffix with
  | pointer => exact hpointer hrun
  | reference => exact hpointer hrun
  | array length =>
    obtain ⟨k, s₁, hkeyOf, hrest⟩ := bind_eq_ok hrun
    obtain ⟨rfl, hk⟩ := keyOf_eq_ok hkeyOf
    cases hkey.symm.trans hk
    obtain ⟨_, s₂, hneed, hlast⟩ := bind_eq_ok hrest
    obtain ⟨rfl, -⟩ := needWritable_eq_ok hneed
    exact gives_ensure hs hw (fun _ => .array) hlast

/-- All of them, by induction on the suffixes that are left. -/
theorem gives_applySuffixes (suffixes : List Suffix) (hg : Gives describe valid size key s h t)
    (hw : WellFormed t) {last : Handle} (hrun : applySuffixes task h suffixes t = .ok last s') :
    Gives describe valid size (key.wrap suffixes) s last s' := by
  induction suffixes generalizing h key t with
  | nil =>
    cases hrun
    exact hg
  | cons suffix rest ih =>
    obtain ⟨next, t₁, hfirst, hrest⟩ := bind_eq_ok hrun
    obtain ⟨hw₁, hgrows, -⟩ := (steps_applySuffix task hw h suffix).of_ok hfirst
    exact ih (hg.trans hw hgrows (key.within_suffix suffix)
      (gives_applySuffix hd hz hg.plain hw hg.keyed hfirst)) hw₁ hrest

end

/-! ## 6. References -/

/-- How references are declared in a plain module. -/
def DeclaresPlain (describe : Description) (valid : σ → Prop) (size : Int)
    (declare : Ref → Run σ Handle) : Prop :=
  ∀ {text base : String} {suffixes : List Suffix} {s s' : State σ} {h : Handle}, WellFormed s →
    Plain describe valid size s → Unwraps text base suffixes → PlainBase describe base →
    declare (.name text) s = .ok h s' →
    Gives describe valid size ((keyOfBase describe base).wrap suffixes) s h s'

/-- A struct or union is placed under a key that was free. -/
theorem gives_placeNew (hs : Plain describe valid size s) (hw : WellFormed s) {shape : Shape}
    {a : Aggregate} (hshows : Shows describe (.name base) shape) (hkind : shape.isAggregate = true)
    (hmade : a.blank = madeOf base shape)
    (hrun : placeNew task (.named base) a shape s = .ok h s') :
    Gives describe valid size (.named base) s h s' := by
  cases hget : s.registry.get? (.named base) with
  | some x =>
    simp only [placeNew, run_get_bind, hget] at hrun
    cases hrun
    exact hs.found hw hget
  | none =>
    simp only [placeNew, run_get_bind, hget] at hrun
    obtain ⟨x, t, hregister, hrun⟩ := bind_eq_ok hrun
    rw [register_run hget] at hregister
    cases hregister
    cases hrun
    refine hs.push hw rfl rfl rfl rfl rfl rfl ?_ ?_
    · intro x other hother
      show (s.placed.put s.graph.count shape).get? x = some other
      rw [Assoc.get?_put, if_neg, hother]
      -- what was placed before lies below
      rintro rfl
      obtain ⟨b, hb⟩ := (hw.placed _).mp ⟨other, hother⟩
      exact absurd (Graph.lt_count_of_aggregate hb) (Nat.lt_irrefl _)
    · show Content describe size (.named base) (.aggregate a)
        ((s.placed.put s.graph.count shape).get? s.graph.count)
      rw [Assoc.get?_put, if_pos rfl]
      exact .aggregate hshows hkind hmade

/-- A described struct or union is placed under its own name. -/
theorem gives_declareAggregate (hp : PlainDescription describe) (hs : Plain describe valid size s)
    (hw : WellFormed s) {shape : Shape} (hshows : Shows describe (.name base) shape)
    (hkind : shape.kind ≠ .primitive)
    (hrun : declareAggregate task declare shape s = .ok h s') :
    Gives describe valid size (.named base) s h s' := by
  obtain ⟨hagg, hname, htemplate⟩ := hp.aggregate _ _ hshows hkind
  have hnamed : (nameOf shape : Run σ String) s = .ok base s := by
    unfold nameOf
    rw [hname, isEmpty_of_described hshows.described]
    rfl
  unfold declareAggregate at hrun
  rw [run_bind_ok hnamed] at hrun
  simp only [htemplate] at hrun
  obtain ⟨key, s₁, hkey, hplace⟩ := bind_eq_ok hrun
  obtain ⟨rfl, rfl⟩ := namedKey_eq_ok hkey
  rw [keyOfName_of_described hshows.described] at hplace
  exact gives_placeNew hs hw hshows hagg rfl hplace

section

variable (hd : Describes task describe valid) (hp : PlainDescription describe)

include hd hp

/-- A canonical name is declared as a scalar, as the type of that name, or as a placeholder. -/
theorem gives_declareDescribed (hs : Plain describe valid size s) (hw : WellFormed s)
    (hdescribed : IsDescribed (.name base)) (hbase : PlainBase describe base)
    (hrun : declareDescribed task declare base (.name base) s = .ok h s') :
    Gives describe valid size (keyOfBase describe base) s h s' := by
  obtain ⟨answer, t, hquery, hshape⟩ := bind_eq_ok hrun
  obtain ⟨rfl, ht, hgraph⟩ := plain_query hd hs hquery
  have hwt := ((steps_query task hw (.name base)).of_ok hquery).1
  suffices hgives : Gives describe valid size (keyOfBase describe base) t h s' from
    ⟨hgives.plain, hgives.keyed, hgraph ▸ hgives.only⟩
  cases hanswer : describe (.name base) with
  | none =>
    rw [hanswer] at hshape
    have htoken : Primitive.ofToken? base = none :=
      hbase.token.resolve_right fun hvoid => hp.void (hvoid ▸ hanswer)
    simp only [keyOfBase, hanswer]
    exact gives_undefined ht hwt hanswer htoken hshape
  | some shape =>
    rw [hanswer] at hshape
    simp only [keyOfBase, hanswer]
    by_cases hkind : shape.kind = .primitive
    · rw [if_pos hkind]
      simp only [declareShape, hkind] at hshape
      refine gives_ensure ht hwt (fun _ => .primitive ?_) hshape
      exact fun hvoid => hbase.scalar shape hanswer hkind hvoid
    · rw [if_neg hkind]
      have hshows : Shows describe (.name base) shape := ⟨hdescribed, hanswer⟩
      have hagg := (hp.aggregate _ _ hshows hkind).1
      have hrun : declareAggregate task declare shape t = .ok h s' := by
        rcases Bool.or_eq_true_iff.mp hagg with hk | hk
        · simpa only [declareShape, of_decide_eq_true hk] using hshape
        · simpa only [declareShape, of_decide_eq_true hk] using hshape
      exact gives_declareAggregate hp ht hwt hshows hkind hrun

variable (hz : Sizes task valid size) (hdeclare : Declares declare)
  (hplain : DeclaresPlain describe valid size declare)

include hz hdeclare hplain

/-- A name that is canonical is described; another is its base under suffixes. -/
theorem gives_declareNew (hs : Plain describe valid size s) (hw : WellFormed s) {text : String}
    {suffixes : List Suffix} (hu : Unwraps text base suffixes) (hbase : PlainBase describe base)
    (hrun : declareNew task declare (.name text) s = .ok h s') :
    Gives describe valid size ((keyOfBase describe base).wrap suffixes) s h s' := by
  cases hu with
  | bare hdescribed =>
    exact gives_declareDescribed hd hp hs hw hdescribed hbase
      (declareDescribed_of_declareNew hdescribed hrun).1
  | @wrapped _ _ u rest hnot hparse hrest =>
    obtain ⟨-, hself | ⟨x, t, hx, happly⟩⟩ := exists_base hrun hparse
    · -- a text that is its own base is canonical
      have hnil : u.suffixes = [] := TypeName.suffixes_eq_nil_of_wrapping hself.2
      refine absurd ⟨u, hparse, hnil, ?_⟩ hnot
      cases u
      obtain rfl : _ = [] := hnil
      exact hself.1
    · have hg := hplain hw hs hrest hbase hx
      have hwt := ((hdeclare s _ hw).of_ok hx).1
      rw [Key.wrap, List.foldl_append]
      exact gives_applySuffixes hd hz u.wrapping hg hwt happly

/-- What was declared before is found in the table, with the key that it spells. -/
theorem declaresPlain_declareOnce :
    DeclaresPlain describe valid size (declareOnce task declare) := by
  intro text base suffixes s s' h hw hs hu hbase hrun
  unfold declareOnce at hrun
  cases hget : s.declared.get? (.name text) with
  | some x =>
    simp only [run_get_bind, hget] at hrun
    cases hrun
    exact hs.gives hw (hs.spelled text h base suffixes hget hu)
  | none =>
    simp only [run_get_bind, hget] at hrun
    obtain ⟨x, t, hnew, hlast⟩ := bind_eq_ok hrun
    cases hlast
    have hg := gives_declareNew hd hp hz hdeclare hplain hs hw hu hbase hnew
    refine ⟨⟨hg.plain.truthful, hg.plain.sized, hg.plain.single, hg.plain.content,
      fun text' x base' suffixes' hx hu' => ?_⟩, hg.keyed, hg.only⟩
    rw [Assoc.get?_put] at hx
    split at hx
    · rename_i heq
      cases heq
      cases hx
      obtain ⟨rfl, rfl⟩ := hu.eq hu'
      exact hg.keyed
    · exact hg.plain.spelled text' x base' suffixes' hx hu'

end

/-- **In a plain module a reference is declared under the key that it spells**, whatever was
declared before, and nothing is placed but the type under its suffixes. -/
theorem declaresPlain_declare (hd : Describes task describe valid)
    (hp : PlainDescription describe) (hz : Sizes task valid size) (n : Nat) :
    DeclaresPlain describe valid size (NativeTypes.Resolver.declare task n) := by
  induction n with
  | zero =>
    intro _ _ _ _ _ _ _ _ _ _ hrun
    cases hrun
  | succ n ih => exact declaresPlain_declareOnce hd hp hz (declares_declare task n) ih

end Resolver

end NativeTypes
