/-
NativeTypes.Proofs.Resolver.Alike — instances of two resolvers that have the
same key are the same type.

Two resolvers over one plain module number their instances differently, but a
key says what is known by it. So instances with one key are alike in all that
defining asks about: what they are (`Plain.twins`), what lies under their
arrays, how large they are, and whether parts of them fit
(`isSome_layoutFault?`). The same holds for one resolver at two moments.

Handles cannot be compared across resolvers, so every relation here goes
through keys: `Alike` is having one key, and `Twins` compares two instances
constructor by constructor, with `Alike` in the place of equal handles. That
`Alike` implies `Twins` needs that a key determines its constructor. Keys of
pointers and arrays have an argument and those of named types in a plain module
have none; pointers and arrays differ in their name; a scalar and a struct of
one name are told apart by the module being plain; and a named type is told by
the source, which both resolvers ask.

Sizes are computed by recursion through arrays. As elements are older than
their arrays, the induction is on the handle of the one resolver, and the
handle of the other follows by the key (`Alike.byteSize`).
-/
import NativeTypes.Proofs.Resolver.Plain
import NativeTypes.Proofs.Text.Decimal

namespace NativeTypes

/-! ## 1. Keys

Keys of derived types are built from constructors that can be read back, and so the key of an
array gives its element's key and its length. -/

/-- A token is that of one kind of scalar. -/
theorem Primitive.token_injective {kind kind' : Primitive} (h : kind.token = kind'.token) :
    kind = kind' := by
  have hkind := ofToken?_token kind
  rw [h, ofToken?_token] at hkind
  exact (Option.some.inj hkind).symm

namespace Key

/-- The text of a length gives the length back; the empty text is that of none, and no number has
it. -/
theorem lengthText_injective {length length' : Option Int}
    (h : lengthText length = lengthText length') : length = length' := by
  have hne (n : Int) : toString n ≠ "" := by
    intro he
    cases n with
    | ofNat n =>
      have hlist : (toString n).toList = [] := congrArg String.toList he
      rw [Nat.toString_eq_ofList_toDigits, String.toList_ofList] at hlist
      exact Nat.toDigits_ne_nil hlist
    | negSucc n =>
      have hlist : ("-" ++ toString (n + 1)).toList = [] := congrArg String.toList he
      rw [String.toList_append] at hlist
      cases hlist
  cases length with
  | none =>
    cases length' with
    | none => rfl
    | some n => exact absurd h.symm (hne n)
  | some m =>
    cases length' with
    | none => exact absurd h (hne m)
    | some n => exact congrArg some (Text.decimalInt_injective h)

/-- The key of an array gives the key of its element and its length. -/
theorem array_inj {key key' : Key} {length length' : Option Int}
    (h : array key length = array key' length') : key = key' ∧ length = length' := by
  simp only [array, mk.injEq, List.cons.injEq, KeyArgument.key.injEq, and_true] at h
  refine ⟨h.2, lengthText_injective ?_⟩
  exact (String.append_right_inj "[").mp ((String.append_left_inj "]").mp h.1)

/-- No length is written like a pointer. -/
theorem array_ne_pointer {key key' : Key} {length : Option Int} :
    array key length ≠ pointer key' := by
  intro h
  have hname : "[" ++ lengthText length ++ "]" = "*" := congrArg Key.name h
  have hlist := congrArg String.toList hname
  rw [String.toList_append, String.toList_append] at hlist
  cases hlist

@[simp] theorem arguments_suffix (key : Key) (suffix : Suffix) :
    (suffix.key key).arguments = [.key key] := by
  cases suffix <;> rfl

/-- A suffix leaves what it was put behind as the argument of the key. -/
theorem suffix_inj {key key' : Key} {suffix suffix' : Suffix}
    (h : suffix.key key = suffix'.key key') : key = key' := by
  simpa using congrArg arguments h

theorem wrap_append_singleton (key : Key) (suffixes : List Suffix) (suffix : Suffix) :
    key.wrap (suffixes ++ [suffix]) = suffix.key (key.wrap suffixes) := by
  rw [wrap, List.foldl_append]
  rfl

/-- What lies in a key is the one that the suffixes are put around, under some of them. -/
theorem Within.exists_wrap {k key : Key} (hkey : key.arguments = []) {suffixes : List Suffix}
    (h : k.Within (key.wrap suffixes)) : ∃ first, k = key.wrap first := by
  obtain ⟨more, heq⟩ := h
  induction more using List.reverseRecOn generalizing suffixes with
  | nil => exact ⟨suffixes, heq.symm⟩
  | append_singleton more suffix ih =>
    rw [wrap_append_singleton] at heq
    rcases List.eq_nil_or_concat suffixes with rfl | ⟨first, last, rfl⟩
    · -- no suffix is left to take off
      have harguments : (suffix.key (k.wrap more)).arguments = [] := heq ▸ hkey
      rw [arguments_suffix] at harguments
      cases harguments
    · rw [List.concat_eq_append, wrap_append_singleton] at heq
      exact ih (suffix_inj heq)

/-- Of the keys that lie in a wrapped one only the innermost has no argument. -/
theorem eq_of_within {k key : Key} (hkey : key.arguments = []) (hk : k.arguments = [])
    {suffixes : List Suffix} (h : k.Within (key.wrap suffixes)) : k = key := by
  obtain ⟨first, rfl⟩ := h.exists_wrap hkey
  rcases List.eq_nil_or_concat first with rfl | ⟨first, last, rfl⟩
  · rfl
  · rw [List.concat_eq_append, wrap_append_singleton, arguments_suffix] at hk
    cases hk

end Key

/-! ## 2. The same key
 -/

namespace Resolver

variable {σ : Type} {describe : Description} {valid : σ → Prop} {size : Int} {s s' : State σ}
  {key : Key} {x x' : Handle}

/-- The instances have the same key, each in its state. -/
def Alike (s s' : State σ) (x x' : Handle) : Prop :=
  ∃ key, s.registry.keyOf? x = some key ∧ s'.registry.keyOf? x' = some key

/-- Instances that are the same, but for what an aggregate took on so far. -/
inductive Twins (s s' : State σ) : Instance → Instance → Prop
  | primitive {kind : Primitive} : Twins s s' (.primitive kind) (.primitive kind)
  | pointer {target target' : Handle} {n : Int} : Alike s s' target target' →
      Twins s s' (.pointer target n) (.pointer target' n)
  | array {element element' : Handle} {length : Option Int} : Alike s s' element element' →
      Twins s s' (.array element length) (.array element' length)
  | aggregate {a a' : Aggregate} {name : String} {shape : Shape} : a.blank = madeOf name shape →
      a'.blank = madeOf name shape → Twins s s' (.aggregate a) (.aggregate a')
  | undefined {name : String} : Twins s s' (.undefined name) (.undefined name)

/-- What was made of a shape has its size. -/
theorem size_of_blank {a : Aggregate} {name : String} {shape : Shape}
    (h : a.blank = madeOf name shape) : a.size = shape.size := congrArg Aggregate.size h

/-- A scalar and a struct or union do not share a key. -/
theorem primitive_ne_named (hp : PlainDescription describe) {kind : Primitive} {base : String}
    {shape : Shape}
    (hvoid : kind = .void → ∀ other, describe (.name "void") = some other →
      other.kind = .primitive)
    (hshows : Shows describe (.name base) shape) (hkind : shape.isAggregate = true) :
    Key.primitive kind ≠ .named base := by
  intro h
  obtain rfl : kind.token = base := congrArg Key.name h
  have hnot : shape.kind ≠ .primitive := by
    intro he
    rw [Shape.isAggregate, he] at hkind
    cases hkind
  rcases hp.token _ _ hshows hnot with htoken | htoken
  · rw [Primitive.ofToken?_token] at htoken
    cases htoken
  · obtain rfl : kind = .void := Primitive.token_injective htoken
    exact hnot (hvoid rfl shape hshows.eq)

/-- A type that the source does not know never has the name of a scalar. -/
theorem primitive_ne_undefined {kind : Primitive} {base : String}
    (htoken : Primitive.ofToken? base = none) : Key.primitive kind ≠ .named base := by
  intro h
  obtain rfl : kind.token = base := congrArg Key.name h
  rw [Primitive.ofToken?_token] at htoken
  cases htoken

/-- **Instances with one key are twins**, whichever resolver made them. -/
theorem Plain.twins (hp : PlainDescription describe) (hs : Plain describe valid size s)
    (hs' : Plain describe valid size s') (hw : WellFormed s) (hw' : WellFormed s')
    (h : Alike s s' x x') : Twins s s' (s.graph.get x) (s'.graph.get x') := by
  obtain ⟨key, hk, hk'⟩ := h
  have hc := hs.content x key hk
  have hc' := hs'.content x' key hk'
  have hb := hw.keyBuilt x key hk
  have hb' := hw'.keyBuilt x' key hk'
  generalize s.graph.get x = i at hc hb ⊢
  generalize s'.graph.get x' = i' at hc' hb' ⊢
  generalize s.placed.get? x = placed at hc
  generalize s'.placed.get? x' = placed' at hc'
  generalize hsame : key = key' at hc' hb'
  -- Both instances are known by what their keys say (`content`), so the cases are the pairs of
  -- kinds. Only the pairs of one kind can have one key; the others are refuted as follows.
  -- the key of a structural type has an argument, that of a named one has none
  cases hc with
  | @primitive kind _ hvoid =>
    cases hc' with
    | primitive =>
      obtain rfl := Primitive.token_injective (congrArg Key.name hsame)
      exact .primitive
    | aggregate hshows hkind => exact absurd hsame (primitive_ne_named hp hvoid hshows hkind)
    | undefined _ htoken => exact absurd hsame (primitive_ne_undefined htoken)
    | pointer => cases congrArg Key.arguments hsame
    | array => cases congrArg Key.arguments hsame
  | pointer =>
    cases hc' with
    | pointer =>
      obtain ⟨k, hk, he⟩ := hb
      obtain ⟨k', hk', he'⟩ := hb'
      obtain rfl : k = k' := by
        have hkk : Key.pointer k = Key.pointer k' := he.symm.trans (hsame.trans he')
        simpa [Key.pointer] using hkk
      exact .pointer ⟨k, hk, hk'⟩
    | array => exact absurd hsame.symm Key.array_ne_pointer
    | primitive => cases congrArg Key.arguments hsame
    | aggregate => cases congrArg Key.arguments hsame
    | undefined => cases congrArg Key.arguments hsame
  | array =>
    cases hc' with
    | array =>
      obtain ⟨-, rfl⟩ := Key.array_inj hsame
      obtain ⟨k, hk, he⟩ := hb
      obtain ⟨k', hk', he'⟩ := hb'
      have hkk : k = k' := by
        rw [← (Key.array_inj he).1, ← (Key.array_inj he').1]
        exact (Key.array_inj hsame).1
      exact .array ⟨k, hk, hkk ▸ hk'⟩
    | pointer => exact absurd hsame Key.array_ne_pointer
    | primitive => cases congrArg Key.arguments hsame
    | aggregate => cases congrArg Key.arguments hsame
    | undefined => cases congrArg Key.arguments hsame
  | @aggregate base shape a hshows hkind hmade =>
    cases hc' with
    | primitive hvoid => exact absurd hsame.symm (primitive_ne_named hp hvoid hshows hkind)
    | @aggregate base' shape' a' hshows' _ hmade' =>
      obtain rfl : base = base' := congrArg Key.name hsame
      cases hshows.eq.symm.trans hshows'.eq
      exact .aggregate hmade hmade'
    | @undefined base' _ hnone =>
      obtain rfl : base = base' := congrArg Key.name hsame
      cases hshows.eq.symm.trans hnone
    | pointer => cases congrArg Key.arguments hsame
    | array => cases congrArg Key.arguments hsame
  | @undefined base _ hnone htoken =>
    cases hc' with
    | primitive => exact absurd hsame.symm (primitive_ne_undefined htoken)
    | @aggregate base' _ _ hshows =>
      obtain rfl : base = base' := congrArg Key.name hsame
      cases hshows.eq.symm.trans hnone
    | @undefined base' =>
      obtain rfl : base = base' := congrArg Key.name hsame
      exact .undefined
    | pointer => cases congrArg Key.arguments hsame
    | array => cases congrArg Key.arguments hsame

/-! ## 3. What defining asks about

What the define phase reads of another type: its size, whether its length is open, and how many
bits fit into it. Each is said by the key. -/

section

variable (hp : PlainDescription describe) (hs : Plain describe valid size s)
  (hs' : Plain describe valid size s') (hw : WellFormed s) (hw' : WellFormed s')

include hp hs hs' hw hw'

/-- The size, by induction on the handle in the first resolver: the element of an array is older
than the array. -/
theorem Alike.byteSize (h : Alike s s' x x') : s.graph.byteSize x = s'.graph.byteSize x' := by
  induction x using Nat.strongRecOn generalizing x' with
  | ind x ih =>
    have htwins := hs.twins hp hs' hw hw' h
    generalize hget : s.graph.get x = i at htwins
    generalize hget' : s'.graph.get x' = i' at htwins
    rw [Graph.byteSize, Graph.byteSize]
    cases htwins with
    | primitive => simp only [hget, hget']
    | pointer => simp only [hget, hget']
    | @array element element' length helement =>
      have hlt := hw.element_lt hget
      cases length with
      | none => simp only [hget, hget']
      | some n => simp only [hget, hget', if_pos hlt, if_pos (hw'.element_lt hget'),
          ih element hlt helement]
    | aggregate hmade hmade' =>
      simp only [hget, hget', size_of_blank hmade, size_of_blank hmade']
    | undefined => simp only [hget, hget']

theorem Alike.isFlexible (h : Alike s s' x x') :
    s.graph.isFlexible x = s'.graph.isFlexible x' := by
  have htwins := hs.twins hp hs' hw hw' h
  generalize hget : s.graph.get x = i at htwins
  generalize hget' : s'.graph.get x' = i' at htwins
  rw [Graph.isFlexible, Graph.isFlexible]
  cases htwins <;> simp only [hget, hget']

theorem Alike.bitLimit (h : Alike s s' x x') : s.graph.bitLimit x = s'.graph.bitLimit x' := by
  rw [Graph.bitLimit, Graph.bitLimit, h.byteSize hp hs hs' hw hw']

end

/-- Bases that are the same, with types of one key. -/
def AlikeBases (s s' : State σ) : List BasePart → List BasePart → Prop :=
  List.Forall₂ fun b b' => Alike s s' b.type b'.type ∧ b.offset = b'.offset ∧ b.isTruth = b'.isTruth

/-- Fields that are the same, with types of one key. -/
def AlikeFields (s s' : State σ) : List FieldPart → List FieldPart → Prop :=
  List.Forall₂ fun f f' => Alike s s' f.type f'.type ∧ f.name = f'.name ∧ f.offset = f'.offset ∧
    f.bitOffset = f'.bitOffset ∧ f.bitWidth = f'.bitWidth ∧ f.isTruth = f'.isTruth

/-- Two searches that agree at every place agree on whether anything is found. -/
theorem isSome_findSome? {α β : Type} {f f' : α → Option β} {l l' : List α}
    (h : List.Forall₂ (fun a a' => (f a).isSome = (f' a').isSome) l l') :
    (l.findSome? f).isSome = (l'.findSome? f').isSome := by
  induction h with
  | nil => rfl
  | @cons a a' _ _ ha _ ih =>
    rw [List.findSome?_cons, List.findSome?_cons]
    cases hf : f a with
    | none =>
      cases hf' : f' a' with
      | none => exact ih
      | some b =>
        rw [hf, hf'] at ha
        cases ha
    | some b =>
      cases hf' : f' a' with
      | none =>
        rw [hf, hf'] at ha
        cases ha
      | some b' => rfl

/-- **Whether the parts of an aggregate fit is said by their keys.** -/
theorem isSome_layoutFault? (hp : PlainDescription describe) (hs : Plain describe valid size s)
    (hs' : Plain describe valid size s') (hw : WellFormed s) (hw' : WellFormed s')
    {a a' : Aggregate} (hsize : a.size = a'.size) (hbases : AlikeBases s s' a.bases a'.bases)
    (hfields : AlikeFields s s' a.fields a'.fields) :
    (s.graph.layoutFault? a).isSome = (s'.graph.layoutFault? a').isSome := by
  have hbase : (a.bases.findSome? (s.graph.baseFault? a.size)).isSome =
      (a'.bases.findSome? (s'.graph.baseFault? a'.size)).isSome := by
    refine isSome_findSome? (hbases.imp fun b b' => ?_)
    rintro ⟨-, hoffset, -⟩
    rw [Graph.baseFault?, Graph.baseFault?, hsize, hoffset]
    split <;> rfl
  have hfield : (a.fields.findSome? (s.graph.fieldFault? a.size)).isSome =
      (a'.fields.findSome? (s'.graph.fieldFault? a'.size)).isSome := by
    refine isSome_findSome? (hfields.imp fun f f' => ?_)
    rintro ⟨htype, -, hoffset, hbit, hwidth, -⟩
    rw [Graph.fieldFault?, Graph.fieldFault?, hsize, hoffset, hbit, hwidth,
      htype.isFlexible hp hs hs' hw hw', htype.bitLimit hp hs hs' hw hw']
    split
    · split
      · rfl
      · split <;> rfl
    · rfl
  rw [Graph.layoutFault?, Graph.layoutFault?, Option.isSome_or, Option.isSome_or, hbase, hfield]

end Resolver

end NativeTypes
