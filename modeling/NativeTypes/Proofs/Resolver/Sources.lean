/-
NativeTypes.Proofs.Resolver.Sources — why a resolver finds an instance.

A resolver finds instances by keys and by references, and it has nothing
from itself: whatever it finds goes back to an answer of the source. This
module says how.

* `Wanted` — what the source said asks for an instance under its first key:
  a scalar that some described type needs, an enumeration or aggregate under
  a key made of its name, a placeholder that was reported. Pointers, arrays
  and functions need no reason of their own; their keys are made of the keys
  of their parts (`KeyBuilt`).
* `Justified` — an instance is found under its first key because it was
  wanted, under the name of a typedef because the target is found, and for a
  reference because the entry that the reference passes to is found
  (`PassesTo`): its base, what its suffixes make of that, or what its answer
  is filed under (`Filed`).
* `Sourced` — everything that is found is justified, and every key can be
  written.

`Justified` is inductive, so it looks back through any number of typedefs
and spellings. It speaks of what a state knows and never of what it lacks.
So it survives in every state that knows more (`Later`, `Justified.later`),
and a step that adds one entry has to justify that one only
(`Sourced.later`). A reference may be declared once more inside its own
declaration and then lead elsewhere; this is why `Justified.declared` asks
only that it was declared, not that it leads to this very instance.

That the functions of the declare phase keep states sourced is part of how
they step (`Grows.sourced`). What follows from it is proved where it is
used, each time by induction on `Justified`: what a sorting says of an entry
is true of the instance (`Sourced.kept`), and whoever has the key of an array
is an array (`Sourced.arrayed`).
-/
import NativeTypes.Proofs.Key.Texts
import NativeTypes.Proofs.Registry
import NativeTypes.Resolver.Define

namespace NativeTypes

/-! ## 1. Keys along suffixes -/

/-- The key of what a suffix makes of an instance with this key. -/
def Suffix.key (key : Key) : Suffix → Key
  | .array length => .array key length
  | .pointer | .reference => .pointer key

/-- The registry leads from `h` along the suffixes to the last instance. -/
def Registry.Wraps (r : Registry Key) : Handle → List Suffix → Handle → Prop
  | h, [], last => h = last
  | h, suffix :: rest, last => suffix.isWritable = true ∧ ∃ key next, r.keyOf? h = some key ∧
      r.get? (suffix.key key) = some next ∧ r.Wraps next rest last

/-- Nothing is wrapped where there are no suffixes only: the order in which they wrap leaves none
out. -/
theorem TypeName.suffixes_eq_nil_of_wrapping {t : TypeName} (h : t.wrapping = []) :
    t.suffixes = [] := by
  have hlength (run suffixes : List Suffix) :
      (wrappingFrom run suffixes).length = run.length + suffixes.length := by
    induction suffixes generalizing run with
    | nil => rfl
    | cons suffix rest ih =>
      rw [wrappingFrom]
      split
      · rw [ih, List.length_cons, List.length_cons, Nat.add_right_comm]
        rfl
      · rw [List.length_append, List.length_cons, ih, List.length_nil, Nat.zero_add,
          List.length_cons]
  have hnone := hlength [] t.suffixes
  rw [show wrappingFrom [] t.suffixes = [] from h] at hnone
  exact List.length_eq_zero_iff.mp (by simpa using hnone.symm)

namespace Registry

variable {r r' : Registry Key} {suffixes more : List Suffix} {h last last' : Handle}

/-- A registry with more keys leads to the same instance. -/
theorem Wraps.widen (hr : r.Widens r') (hw : r.Wraps h suffixes last) :
    r'.Wraps h suffixes last := by
  induction suffixes generalizing h with
  | nil => exact hw
  | cons suffix rest ih =>
    obtain ⟨hwritable, key, next, hkey, hnext, hrest⟩ := hw
    exact ⟨hwritable, key, next, hr.keyOf? _ _ hkey, hr.get? _ _ hnext, ih hrest⟩

/-- There is one instance at the end. -/
theorem Wraps.eq (hw : r.Wraps h suffixes last) (hw' : r.Wraps h suffixes last') :
    last = last' := by
  induction suffixes generalizing h with
  | nil => exact hw.symm.trans hw'
  | cons suffix rest ih =>
    obtain ⟨-, key, next, hkey, hnext, hrest⟩ := hw
    obtain ⟨-, key', next', hkey', hnext', hrest'⟩ := hw'
    cases hkey.symm.trans hkey'
    cases hnext.symm.trans hnext'
    exact ih hrest hrest'

/-- Suffixes behind others wrap what these lead to. -/
theorem wraps_append :
    r.Wraps h (suffixes ++ more) last ↔ ∃ mid, r.Wraps h suffixes mid ∧ r.Wraps mid more last := by
  induction suffixes generalizing h with
  | nil => simp [Registry.Wraps]
  | cons suffix rest ih =>
    simp only [List.cons_append, Registry.Wraps, ih]
    constructor
    · rintro ⟨hwritable, key, next, hkey, hnext, mid, hrest, hmore⟩
      exact ⟨mid, ⟨hwritable, key, next, hkey, hnext, hrest⟩, hmore⟩
    · rintro ⟨mid, ⟨hwritable, key, next, hkey, hnext, hrest⟩, hmore⟩
      exact ⟨hwritable, key, next, hkey, hnext, mid, hrest, hmore⟩

end Registry

/-! ## 2. Keys that can be written -/

namespace KeyArgument

theorem areWritable_iff {arguments : List KeyArgument} :
    areWritable arguments = true ↔ ∀ a ∈ arguments, a.isWritable = true := by
  induction arguments with
  | nil => simp [areWritable]
  | cons a rest ih => simp [areWritable, ih]

end KeyArgument

namespace Key

theorem isWritable_mk {name : String} {arguments : List KeyArgument} :
    (mk name arguments).isWritable = true ↔ ∀ a ∈ arguments, a.isWritable = true := by
  rw [isWritable, KeyArgument.areWritable_iff]

/-- A name is a text already. -/
@[simp] theorem isWritable_named (name : String) : (named name).isWritable = true := rfl

@[simp] theorem isWritable_primitive (kind : Primitive) : (primitive kind).isWritable = true := rfl

@[simp] theorem isWritable_pointer (target : Key) :
    (pointer target).isWritable = target.isWritable := by
  simp [pointer, isWritable, KeyArgument.areWritable, KeyArgument.isWritable]

/-- The length of an array stands in the name of its key, not among the arguments. -/
@[simp] theorem isWritable_array (element : Key) (length : Option Int) :
    (array element length).isWritable = element.isWritable := by
  simp [array, isWritable, KeyArgument.areWritable, KeyArgument.isWritable]

theorem isWritable_function {result : Key} {parameters : List Key} {variadic : Bool} :
    (function result parameters variadic).isWritable = true ↔
      result.isWritable = true ∧ ∀ p ∈ parameters, p.isWritable = true := by
  simp [function, isWritable_mk, KeyArgument.isWritable]

end Key

/-- The number that an argument is, if it is no type. -/
def Argument.number? : Argument → Option Int
  | .number n => some n
  | .type _ => none

/-- The number that an argument is, if it is no type. -/
def TemplateArgument.number? : TemplateArgument → Option Int
  | .type _ => none
  | .number n => some n

/-- What a name is written with can be written as part of it. -/
theorem TypeName.isWritable_of_mem_arguments {t : TypeName} (ht : t.isWritable = true)
    {a : Argument} (ha : a ∈ t.arguments) : a.isWritable = true := by
  have hmem {as : List Argument} (has : argumentsWritable as = true) (ha : a ∈ as) :
      a.isWritable = true := by
    induction as with
    | nil => cases ha
    | cons b rest ih =>
      rw [argumentsWritable, Bool.and_eq_true] at has
      rcases List.mem_cons.mp ha with rfl | ha
      · exact has.1
      · exact ih has.2 ha
  obtain ⟨base, suffixes⟩ := t
  cases base with
  | builtin type => cases ha
  | path scopes last =>
    cases last with
    | plain name => cases ha
    | template name arguments =>
      simp only [TypeName.isWritable, BaseName.isWritable, Segment.isWritable,
        Bool.and_eq_true] at ht
      exact hmem ht.1.2 ha

/-- So do the numbers among keys that stand for the arguments of a name. -/
theorem TypeName.isWritable_of_map_number? {t : TypeName} (ht : t.isWritable = true)
    {keys : List KeyArgument}
    (hkeys : keys.map KeyArgument.number? = t.arguments.map Argument.number?)
    {n : Int} (hn : .number n ∈ keys) : Text.isWritable n = true := by
  have hmem : some n ∈ t.arguments.map Argument.number? :=
    hkeys ▸ List.mem_map_of_mem (f := KeyArgument.number?) hn
  obtain ⟨a, ha, he⟩ := List.mem_map.mp hmem
  have hwritable := isWritable_of_mem_arguments ht ha
  cases a with
  | type u => cases he
  | number m =>
    cases he
    rwa [Argument.isWritable] at hwritable

namespace Resolver

variable {σ : Type} {s s' s'' : State σ}

/-! ## 3. Names of described types -/

/-- The key of a type known by name, as long as it can be written. -/
def keyOfName (name : String) : Key :=
  match TypeName.parsePlain? name with
  | none => .named name
  | some t => .named t.format

@[simp] theorem isWritable_keyOfName (name : String) : (keyOfName name).isWritable = true := by
  unfold keyOfName
  split <;> rfl

/-- What stands for the name of a type that has none. -/
def labelOf : Ref → String
  | .name text => text
  | .id n => "#" ++ String.ofList (Text.hexInt n)

/-- The reference is one that the source is asked about: an id, or a canonical name. -/
def IsDescribed : Ref → Prop
  | .id _ => True
  | .name text => ∃ t, TypeName.parse text = .ok t ∧ t.suffixes = [] ∧ t.format = text

/-- A name that a shape may be given: its own, one made of its id, or else one made of a running
number. -/
inductive GoesBy (shape : Shape) : String → Prop
  | own : shape.name.isEmpty = false → GoesBy shape shape.name
  | id {id : Int} : shape.name.isEmpty = true → shape.typeId = some id →
      GoesBy shape (Shape.anonymousMark ++ "-" ++ String.ofList (Text.hexInt id) ++ ">")
  | number (n : Nat) : shape.name.isEmpty = true → shape.typeId = none →
      GoesBy shape (Shape.anonymousMark ++ "-" ++ toString n ++ ">")

/-- A key that an aggregate of this name may take. -/
def AggregateKey (name : String) (key : Key) : Prop :=
  match (TypeName.parsePlain? name).filter TypeName.isTemplate with
  | some t => ∃ keys, keys.length = t.arguments.length ∧ key = .mk t.baseName keys
  | none => key = keyOfName name

theorem aggregateKey_of_template {name : String} {t : TypeName} {keys : List KeyArgument}
    (ht : (TypeName.parsePlain? name).filter TypeName.isTemplate = some t)
    (hkeys : keys.map KeyArgument.number? = t.arguments.map Argument.number?) :
    AggregateKey name (.mk t.baseName keys) := by
  rw [AggregateKey, ht]
  exact ⟨keys, by simpa using congrArg List.length hkeys, rfl⟩

/-! ## 4. Why an instance has its first key -/

/-- The source described the reference by this shape. -/
def Knows (s : State σ) (ref : Ref) (shape : Shape) : Prop :=
  s.shapes.get? ref = some (some shape)

/-- A described type needs a scalar: it is one, or a part that it does not name stands for one. -/
inductive NeedsScalar (shape : Shape) : Primitive → Prop
  | self : shape.kind = .primitive → NeedsScalar shape (shape.primitive.getD .void)
  | target : shape.kind = .pointer → shape.target = none → NeedsScalar shape .void
  | underlying : shape.kind = .enumeration → shape.underlying = none →
      NeedsScalar shape (defaultUnderlying shape.size)
  | result : shape.kind = .function → shape.result = none → NeedsScalar shape .void

/-- Some described type needs the scalar. -/
def Needed (s : State σ) (kind : Primitive) : Prop :=
  ∃ ref shape, Knows s ref shape ∧ NeedsScalar shape kind

/-- What the source said asks for the instance under this key. -/
inductive Wanted (s : State σ) (key : Key) : Instance → Prop
  | primitive {kind : Primitive} : Needed s kind → Wanted s key (.primitive kind)
  | enumeration {ref : Ref} {shape : Shape} {name : String} {e : Enumeration} :
      Knows s ref shape → shape.kind = .enumeration → GoesBy shape name → key = keyOfName name →
      Wanted s key (.enumeration e)
  | aggregate {ref : Ref} {shape : Shape} {name : String} {a : Aggregate} :
      Knows s ref shape → shape.kind = .struct ∨ shape.kind = .union → GoesBy shape name →
      AggregateKey name key → Wanted s key (.aggregate a)
  | undefined {d : Diagnostic} : d ∈ s.diagnostics → d.kind = .unresolvable →
      key = .named d.subject → Wanted s key (.undefined d.subject)
  /-- The keys of these say themselves what they are made of. -/
  | pointer {target : Handle} {size : Int} : Wanted s key (.pointer target size)
  | array {element : Handle} {length : Option Int} : Wanted s key (.array element length)
  | function {f : FunctionType} : Wanted s key (.function f)

/-! ## 5. Why an instance is found -/

/-- What an instance is found by. -/
inductive Entry
  | key (key : Key)
  | ref (ref : Ref)

/-- The instance that is found by an entry. -/
def State.find? (s : State σ) : Entry → Option Handle
  | .key key => s.registry.get? key
  | .ref ref => s.declared.get? ref

/-- The entry that what an answer describes is filed under; `label` stands for a name that it may
lack. A typedef is filed under its target, and under its label while it is open. -/
inductive Filed (label : String) : Option Shape → Entry → Prop
  | unknown : Filed label none (.key (.named label))
  | primitive {shape : Shape} : shape.kind = .primitive →
      Filed label (some shape) (.key (.primitive (shape.primitive.getD .void)))
  | pointer {shape : Shape} {key : Key} : shape.kind = .pointer →
      Filed label (some shape) (.key (.pointer key))
  | array {shape : Shape} {key : Key} : shape.kind = .array → shape.target ≠ none →
      Filed label (some shape) (.key (.array key shape.length))
  | elementless {shape : Shape} : shape.kind = .array → shape.target = none →
      Filed label (some shape) (.key (.named label))
  | target {shape : Shape} {target : Ref} : shape.kind = .typedef → shape.target = some target →
      Filed label (some shape) (.ref target)
  | reentered {shape : Shape} : shape.kind = .typedef → shape.target ≠ none →
      Filed label (some shape) (.key (.named label))
  | targetless {shape : Shape} : shape.kind = .typedef → shape.target = none →
      Filed label (some shape) (.key (.named (if shape.name.isEmpty then label else shape.name)))
  | enumeration {shape : Shape} {name : String} : shape.kind = .enumeration → GoesBy shape name →
      Filed label (some shape) (.key (keyOfName name))
  | function {shape : Shape} {result : Key} {parameters : List Key} : shape.kind = .function →
      Filed label (some shape) (.key (.function result parameters shape.variadic))
  | aggregate {shape : Shape} {name : String} {key : Key} :
      shape.kind = .struct ∨ shape.kind = .union → GoesBy shape name → AggregateKey name key →
      Filed label (some shape) (.key key)
  | unsupported {shape : Shape} : shape.kind = .unsupported →
      Filed label (some shape) (.key (.named (if shape.name.isEmpty then label else shape.name)))

/-- The entry whose instance a reference stands for. -/
inductive PassesTo (s : State σ) : Ref → Entry → Prop
  | refused {text : String} {e : NameSyntaxError} : TypeName.parse text = .error e →
      PassesTo s (.name text) (.key (.named (String.ofList (Text.trim text.toList))))
  /-- The last suffix says what the instance is. -/
  | wrapped {text : String} {t : TypeName} {first : List Suffix} {suffix : Suffix} {key : Key} :
      TypeName.parse text = .ok t → t.wrapping = first ++ [suffix] →
      PassesTo s (.name text) (.key (suffix.key key))
  | respelled {text : String} {t : TypeName} : TypeName.parse text = .ok t → t.suffixes = [] →
      PassesTo s (.name text) (.ref (.name t.format))
  | described {ref : Ref} {answer : Option Shape} {e : Entry} : IsDescribed ref →
      s.shapes.get? ref = some answer → Filed (labelOf ref) answer e → PassesTo s ref e

/-- Why an instance is found by an entry. -/
inductive Justified (s : State σ) : Entry → Handle → Prop
  | wanted {h : Handle} {key : Key} : h < s.graph.count → s.registry.keyOf? h = some key →
      Wanted s key (s.graph.get h) → Justified s (.key key) h
  | typedef {ref target : Ref} {shape : Shape} {h : Handle} : Knows s ref shape →
      shape.kind = .typedef → shape.target = some target → shape.name.isEmpty = false →
      Justified s (.ref target) h → Justified s (.key (keyOfName shape.name)) h
  | declared {ref : Ref} {e : Entry} {h : Handle} : (s.declared.get? ref).isSome = true →
      PassesTo s ref e → Justified s e h → Justified s (.ref ref) h

/-! ## 6. What lasts -/

/-- A later state knows all that an earlier one knew. Instances stay, but aggregates may take on
parts. -/
structure Later (s s' : State σ) : Prop where
  count : s.graph.count ≤ s'.graph.count
  get : ∀ h, h < s.graph.count → s'.graph.get h = s.graph.get h ∨
    (∃ a, s.graph.get h = .aggregate a) ∧ ∃ a, s'.graph.get h = .aggregate a
  keys : ∀ h key, s.registry.keyOf? h = some key → s'.registry.keyOf? h = some key
  shapes : ∀ ref answer, s.shapes.get? ref = some answer → s'.shapes.get? ref = some answer
  diagnostics : ∀ d ∈ s.diagnostics, d ∈ s'.diagnostics
  declared : ∀ ref, (s.declared.get? ref).isSome = true → (s'.declared.get? ref).isSome = true

theorem Later.refl (s : State σ) : Later s s :=
  ⟨Nat.le_refl _, fun _ _ => .inl rfl, fun _ _ h => h, fun _ _ h => h, fun _ h => h,
    fun _ h => h⟩

theorem Needed.later {kind : Primitive} (h : Needed s kind) (hl : Later s s') : Needed s' kind := by
  obtain ⟨ref, shape, hknows, hneeds⟩ := h
  exact ⟨ref, shape, hl.shapes _ _ hknows, hneeds⟩

theorem Wanted.later {key : Key} {i : Instance} (h : Wanted s key i) (hl : Later s s') :
    Wanted s' key i := by
  cases h with
  | primitive hneeded => exact .primitive (hneeded.later hl)
  | enumeration hknows hkind hname hkey =>
    exact .enumeration (hl.shapes _ _ hknows) hkind hname hkey
  | aggregate hknows hkind hname hkey => exact .aggregate (hl.shapes _ _ hknows) hkind hname hkey
  | undefined hd hkind hkey => exact .undefined (hl.diagnostics _ hd) hkind hkey
  | pointer => exact .pointer
  | array => exact .array
  | function => exact .function

/-- What is wanted of an aggregate does not depend on its parts. -/
theorem Wanted.aggregate_congr {key : Key} {a : Aggregate} (h : Wanted s key (.aggregate a))
    (b : Aggregate) : Wanted s key (.aggregate b) := by
  cases h with
  | aggregate hknows hkind hname hkey => exact .aggregate hknows hkind hname hkey

theorem PassesTo.later {ref : Ref} {e : Entry} (h : PassesTo s ref e) (hl : Later s s') :
    PassesTo s' ref e := by
  cases h with
  | refused hparse => exact .refused hparse
  | wrapped hparse hlast => exact .wrapped hparse hlast
  | respelled hparse hplain => exact .respelled hparse hplain
  | described hdescribed hanswer hfiled =>
    exact .described hdescribed (hl.shapes _ _ hanswer) hfiled

/-- **What is justified stays so**, by induction on the reasons. -/
theorem Justified.later {e : Entry} {h : Handle} (hj : Justified s e h) (hl : Later s s') :
    Justified s' e h := by
  induction hj with
  | wanted hlt hkey hwanted =>
    refine .wanted (Nat.lt_of_lt_of_le hlt hl.count) (hl.keys _ _ hkey) ?_
    rcases hl.get _ hlt with hsame | ⟨⟨a, ha⟩, b, hb⟩
    · exact hsame ▸ hwanted.later hl
    · rw [ha] at hwanted
      exact hb ▸ (hwanted.aggregate_congr b).later hl
  | typedef hknows hkind htarget hname _ ih =>
    exact .typedef (hl.shapes _ _ hknows) hkind htarget hname ih
  | declared hdeclared hpasses _ ih =>
    exact .declared (hl.declared _ hdeclared) (hpasses.later hl) ih

/-! ## 7. Sourced states -/

/-- Everything that is found is justified, and every key can be written. -/
structure Sourced (s : State σ) : Prop where
  justified : ∀ e h, s.find? e = some h → Justified s e h
  writable : ∀ key h, s.registry.get? key = some h → key.isWritable = true

theorem sourced_start (session : σ) : Sourced (State.start session) where
  justified := by
    intro e h hfound
    cases e <;> cases hfound
  writable := nofun

/-- What is added has to be justified, all else is so already. -/
theorem Sourced.later (hs : Sourced s) (hl : Later s s')
    (hfound : ∀ e h, s'.find? e = some h → s.find? e = some h ∨ Justified s' e h)
    (hkeys : ∀ key h, s'.registry.get? key = some h →
      s.registry.get? key = some h ∨ key.isWritable = true) : Sourced s' where
  justified := fun e h hh =>
    (hfound e h hh).elim (fun hold => (hs.justified e h hold).later hl) id
  writable := fun key h hh => (hkeys key h hh).elim (hs.writable key h) id

/-- The same is found in a state that knows more. -/
theorem Sourced.same (hs : Sourced s) (hl : Later s s') (hregistry : s'.registry = s.registry)
    (hdeclared : s'.declared = s.declared) : Sourced s' := by
  refine hs.later hl (fun e h hh => .inl ?_) fun key h hh => .inl (hregistry ▸ hh)
  cases e with
  | key key => exact (hregistry ▸ hh : s.registry.get? key = some h)
  | ref ref => exact (hdeclared ▸ hh : s.declared.get? ref = some h)

/-- One more key. -/
theorem Sourced.bind (hs : Sourced s) (hl : Later s s') {key : Key} {h : Handle}
    (hregistry : s'.registry = s.registry.bind key h) (hdeclared : s'.declared = s.declared)
    (hwritable : key.isWritable = true) (hj : Justified s' (.key key) h) : Sourced s' := by
  have hget {key' : Key} {h' : Handle} (hh : s'.registry.get? key' = some h') :
      s.registry.get? key' = some h' ∨ key' = key ∧ h' = h := by
    rw [hregistry, Registry.get?_bind] at hh
    split at hh
    · rename_i he
      cases hh
      exact .inr ⟨he.symm, rfl⟩
    · exact .inl hh
  refine hs.later hl (fun e x hx => ?_) fun key' x hx => ?_
  · cases e with
    | key key' =>
      rcases hget hx with hold | ⟨rfl, rfl⟩
      · exact .inl hold
      · exact .inr hj
    | ref ref => exact .inl (hdeclared ▸ hx : s.declared.get? ref = some x)
  · rcases hget hx with hold | ⟨rfl, -⟩
    · exact .inl hold
    · exact .inr hwritable

/-- One more declared reference, or one that was declared in another way before. -/
theorem Sourced.declare (hs : Sourced s) (hl : Later s s') {ref : Ref} {h : Handle}
    (hregistry : s'.registry = s.registry) (hdeclared : s'.declared = s.declared.put ref h)
    (hj : Justified s' (.ref ref) h) : Sourced s' := by
  refine hs.later hl (fun e x hx => ?_) fun key x hx => .inl (hregistry ▸ hx)
  cases e with
  | key key => exact .inl (hregistry ▸ hx : s.registry.get? key = some x)
  | ref r =>
    have hx : s'.declared.get? r = some x := hx
    rw [hdeclared, Assoc.get?_put] at hx
    split at hx
    · rename_i he
      cases hx
      exact .inr (he ▸ hj)
    · exact .inl hx

/-- Primary keys are among the keys. -/
theorem Sourced.writable_of_keyOf? (hs : Sourced s) (hr : s.registry.Coherent) {h : Handle}
    {key : Key} (hkey : s.registry.keyOf? h = some key) : key.isWritable = true :=
  hs.writable key h ((hr.get?_iff key h).mpr (Registry.mem_keysOf_of_keyOf? hkey))

end Resolver

end NativeTypes
