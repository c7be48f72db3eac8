/-
NativeTypes.Proofs.Resolver.Arrayed — who has the key of an array is an array.

The name of an array's key starts with a bracket. No type name does, no
token of a scalar and no other reserved name. A placeholder could: it takes
whatever text was asked for as its name. But its key has no arguments, and
that of an array has one (`Key.notArray_named`).

So a reason for an instance to be found under such a key leaves one case
only (`Sourced.arrayed`): it was wanted under it, and of the instances whose
keys say themselves what they are made of only arrays have brackets in their
keys. This holds after any requests, whether they returned or stopped
(`Attempted.arrayed`). Suffixes that are arrays, followed in the registry,
are then nested arrays in the graph (`Arrayed.isNested`).
-/
import NativeTypes.Proofs.Resolver.Alike
import NativeTypes.Proofs.Resolver.Keying
import NativeTypes.Proofs.TypeName.Neat

namespace NativeTypes

/-! ## 1. The keys of arrays -/

/-- A segment starts with its name, and a name starts with no bracket. -/
theorem Segment.head?_spell {s : Segment} (hs : isSegmentName s.name.toList = true)
    (more : List Char) : ∃ c ∈ (s.spell ++ more).head?, c ≠ '[' := by
  obtain ⟨c, hc, hstart⟩ := Scanner.head?_of_isSegmentName hs
  have hname (rest : List Char) : c ∈ (s.name.toList ++ rest).head? := by
    simp [List.head?_append, Option.mem_def.mp hc]
  refine ⟨c, ?_, ?_⟩
  · cases s with
    | plain n => exact hname more
    | template n as =>
      rw [Segment.spell, List.append_assoc, List.append_assoc]
      exact hname _
  · rintro rfl
    simp [Scanner.isNameStart] at hstart

/-- The path of a name that was read starts with no bracket. -/
theorem TypeName.head?_baseName {text : String} {t : TypeName} (h : parse text = .ok t) :
    t.baseName.toList.head? ≠ some '[' := by
  have hnamed := isNamed_of_parse h
  obtain ⟨b, ss⟩ := t
  rw [nested] at hnamed
  have hname := Scanner.isNamed_iff.mp (hnamed _ List.mem_cons_self)
  rw [baseName, String.toList_ofList]
  simp only [base]
  cases b with
  | builtin type => cases type <;> decide
  | path scopes last =>
    cases scopes with
    | nil =>
      have hplain := Segment.head?_spell (s := .plain last.name)
        (hname last (by simp [BaseName.segments])) []
      obtain ⟨c, hc, hne⟩ := hplain
      rw [Segment.spell, List.append_nil] at hc
      simpa only [BaseName.scopes, BaseName.last, spellSegments, List.nil_append,
        List.intercalate_singleton, Option.mem_def.mp hc, ne_eq, Option.some.injEq] using hne
    | cons s rest =>
      obtain ⟨more, hmore⟩ : ∃ more, List.intercalate scopeMark
          (spellSegments (s :: rest) ++ [last.name.toList]) = s.spell ++ more := by
        rw [spellSegments, List.cons_append]
        cases spellSegments rest ++ [last.name.toList] with
        | nil => exact ⟨[], by simp⟩
        | cons x xs => exact ⟨_, by rw [List.intercalate_cons_cons, List.append_assoc]⟩
      obtain ⟨c, hc, hne⟩ := Segment.head?_spell (hname s (by simp [BaseName.segments])) more
      simp only [BaseName.scopes, BaseName.last, hmore, Option.mem_def.mp hc, ne_eq,
        Option.some.injEq]
      exact hne

namespace Key

/-- The key is not that of an array. -/
def NotArray (key : Key) : Prop := ∀ element length, key ≠ array element length

theorem notArray_named (name : String) : (named name).NotArray := by
  intro element length h
  cases congrArg arguments h

theorem notArray_primitive (kind : Primitive) : (primitive kind).NotArray := notArray_named _

theorem notArray_pointer (target : Key) : (pointer target).NotArray :=
  fun _ _ h => array_ne_pointer h.symm

theorem head?_name_array (element : Key) (length : Option Int) :
    (array element length).name.toList.head? = some '[' := by
  simp [array, name]

theorem notArray_function (result : Key) (parameters : List Key) (variadic : Bool) :
    (function result parameters variadic).NotArray := by
  intro element length h
  have hhead := congrArg (fun k => k.name.toList.head?) h
  simp only [head?_name_array] at hhead
  cases variadic <;> simp [function, name] at hhead

theorem notArray_template {text : String} {t : TypeName} (h : TypeName.parse text = .ok t)
    (keys : List KeyArgument) : (mk t.baseName keys).NotArray := by
  intro element length heq
  have hhead := congrArg (fun k => k.name.toList.head?) heq
  simp only [head?_name_array] at hhead
  exact TypeName.head?_baseName h hhead

end Key

namespace Resolver

variable {σ : Type} {s : State σ}

theorem notArray_keyOfName (name : String) : (keyOfName name).NotArray := by
  unfold keyOfName
  split
  · exact Key.notArray_named _
  · exact Key.notArray_named _

theorem notArray_of_aggregateKey {name : String} {key : Key} (h : AggregateKey name key) :
    key.NotArray := by
  unfold AggregateKey at h
  split at h
  · rename_i t ht
    obtain ⟨keys, -, rfl⟩ := h
    obtain ⟨hplain, -⟩ := Option.filter_eq_some_iff.mp ht
    obtain ⟨hok, -⟩ := Option.filter_eq_some_iff.mp hplain
    exact Key.notArray_template (parse_of_parse? hok) keys
  · exact h ▸ notArray_keyOfName name

/-! ## 2. Arrays and their keys -/

/-- Whoever is found under the key of an array is an array of an element with the inner key. -/
def Arrayed (s : State σ) : Prop :=
  ∀ key length h, s.registry.get? (.array key length) = some h →
    ∃ e, s.graph.get h = .array e length ∧ s.registry.keyOf? e = some key

/-- An instance whose first key is that of an array is an array. -/
theorem Wanted.array_of_key {key : Key} {length : Option Int} {i : Instance}
    (hwanted : Wanted s (.array key length) i)
    (hbuilt : KeyBuilt s.registry (.array key length) i) :
    ∃ e, i = .array e length ∧ s.registry.keyOf? e = some key := by
  generalize hfirst : Key.array key length = first at hwanted hbuilt
  cases hwanted with
  | primitive =>
    obtain rfl : first = .primitive _ := hbuilt
    exact absurd hfirst.symm (Key.notArray_primitive _ _ _)
  | enumeration _ _ _ hkey => exact absurd (hfirst.trans hkey).symm (notArray_keyOfName _ _ _)
  | aggregate _ _ _ hkey => exact absurd hfirst.symm (notArray_of_aggregateKey hkey _ _)
  | undefined _ _ hkey => exact absurd (hfirst.trans hkey).symm (Key.notArray_named _ _ _)
  | pointer =>
    obtain ⟨k, -, rfl⟩ := hbuilt
    exact absurd hfirst.symm (Key.notArray_pointer _ _ _)
  | array =>
    obtain ⟨k, hk, rfl⟩ := hbuilt
    obtain ⟨rfl, rfl⟩ := Key.array_inj hfirst
    exact ⟨_, rfl, hk⟩
  | function =>
    obtain ⟨k, ks, -, -, rfl⟩ := hbuilt
    exact absurd hfirst.symm (Key.notArray_function _ _ _ _ _)

theorem Sourced.arrayed (hs : Sourced s) (hw : WellFormed s) : Arrayed s := by
  intro key length h hh
  have hj := hs.justified (.key (.array key length)) h hh
  generalize hentry : Entry.key (.array key length) = e at hj
  cases hj with
  | wanted hlt hkey hwanted =>
    obtain rfl := Entry.key.inj hentry
    exact hwanted.array_of_key (hw.keyBuilt _ _ hkey)
  | typedef => exact absurd (Entry.key.inj hentry).symm (notArray_keyOfName _ _ _)
  | declared => cases hentry

/-- **Who has the key of an array is an array**, after any requests. -/
theorem Attempted.arrayed {task : Task σ} {valid : σ → Prop} (h : Attempted task valid s) :
    Arrayed s :=
  h.sourced.arrayed h.wellFormed

end Resolver

/-! ## 3. Nested arrays -/

/-- The instance is an array of the first length, of an array of the second one, and so on, down to
an element. -/
def Graph.IsNested (g : Graph) (element : Handle) : List (Option Int) → Handle → Prop
  | [], h => h = element
  | length :: rest, h => ∃ e, g.get h = .array e length ∧ g.IsNested element rest e

namespace Resolver

variable {σ : Type} {s : State σ}

/-- **Arrays that the registry leads to are nested arrays**: the last one is the outermost. -/
theorem Arrayed.isNested (hs : Arrayed s) (hw : WellFormed s) {lengths : List (Option Int)}
    {element last : Handle}
    (h : s.registry.Wraps element (lengths.map Suffix.array).reverse last) :
    s.graph.IsNested element lengths last := by
  induction lengths generalizing last with
  | nil => exact Eq.symm h
  | cons length rest ih =>
    rw [List.map_cons, List.reverse_cons, Registry.wraps_append] at h
    obtain ⟨mid, hmid, -, key, next, hkey, hnext, rfl⟩ := h
    obtain ⟨e, hget, he⟩ := hs key length next hnext
    obtain rfl : e = mid := hw.coherent.keyOf?_inj he hkey
    exact ⟨e, hget, ih hmid⟩

end Resolver

end NativeTypes
