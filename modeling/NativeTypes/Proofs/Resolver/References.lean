/-
NativeTypes.Proofs.Resolver.References — a reference tells which instance it is
to.

Generated code refers to a scalar by its token, to a declaration by its
identifier and to pointers and arrays by these words around a reference to what
they are made of. The form of an instance can be read off the text
(`form_typeReference`): only pointers and arrays have brackets, and no
identifier is a token, since tokens are reserved. Below that the text is taken
apart layer by layer. Pointers to one instance are one instance, since they
would have one key, and so are arrays of one length; so in every state that a
resolver comes to, different instances have different texts
(`Built.typeReference_injective`), but for what is undefined: all of that is
written alike.

Two things have to come together. That texts can be taken apart is a fact about
texts, and would hold of any graph. But then two pointers with one text point
to one instance, and nothing in the text says that they are one pointer. That
is a fact about the registry: both have the key that is made of the key of
their target, and a key has one instance. Sizes of pointers are not in the text
and need not be, for the same reason.
-/
import NativeTypes.Proofs.Instance.Renaming
import NativeTypes.Proofs.Naming.Allocation
import NativeTypes.Proofs.Resolver.Alike
import NativeTypes.Proofs.Resolver.Requests

namespace NativeTypes

/-! ## 1. Texts

What is behind the last comma of the text of an array is its length, as a length has no comma. -/

/-- The length of an array as references write it. -/
def dimensionText (length : Option Int) : String := (length.map toString).getD "None"

theorem comma_not_mem_dimensionText (length : Option Int) :
    ',' ∉ (dimensionText length).toList := by
  cases length with
  | none => decide
  | some n =>
    intro h
    rw [dimensionText, Option.map_some, Option.getD_some, Text.toList_toString] at h
    rcases Text.eq_minus_or_isDigit_of_mem_spellInt h with h | h
    · cases h
    · exact absurd h (by decide)

theorem dimensionText_injective {length length' : Option Int}
    (h : dimensionText length = dimensionText length') : length = length' := by
  have hnone (n : Int) : toString n ≠ "None" := by
    intro heq
    have hmem : 'N' ∈ (toString n).toList := by rw [heq]; decide
    rw [Text.toList_toString] at hmem
    rcases Text.eq_minus_or_isDigit_of_mem_spellInt hmem with h | h
    · cases h
    · exact absurd h (by decide)
  cases length with
  | none =>
    cases length' with
    | none => rfl
    | some n => exact absurd h.symm (hnone n)
  | some m =>
    cases length' with
    | none => exact absurd h (hnone m)
    | some n => exact congrArg some (Text.decimalInt_injective h)

/-- The text of an array is taken apart at that comma. -/
theorem arrayText_inj {x x' : String} {length length' : Option Int}
    (h : "Array[" ++ x ++ ", " ++ dimensionText length ++ "]" =
      "Array[" ++ x' ++ ", " ++ dimensionText length' ++ "]") : x = x' ∧ length = length' := by
  have hinner := (String.append_left_inj "]").mp h
  simp only [String.append_assoc] at hinner
  have hlist := congrArg String.toList ((String.append_right_inj "Array[").mp hinner)
  simp only [String.toList_append] at hlist
  have hspace (length : Option Int) : ',' ∉ ' ' :: (dimensionText length).toList := by
    simpa using comma_not_mem_dimensionText length
  obtain ⟨hx, hlength⟩ := Text.append_mark_inj (hspace length) (hspace length') hlist
  exact ⟨String.toList_inj.mp hx,
    dimensionText_injective (String.toList_inj.mp (List.cons.inj hlength).2)⟩

/-! ## 2. References -/

namespace Graph

variable {g : Graph} {truncate : Bool} {names : Option NameTable} {h : Handle}

/-- An instance that is undefined, or a pointer or array that leads to one. -/
inductive EndsUndefined (g : Graph) : Handle → Prop
  | undefined {h : Handle} {name : String} : g.get h = .undefined name → EndsUndefined g h
  | pointer {h target : Handle} {size : Int} : g.get h = .pointer target size →
      EndsUndefined g target → EndsUndefined g h
  | array {h element : Handle} {length : Option Int} : g.get h = .array element length →
      EndsUndefined g element → EndsUndefined g h

theorem typeReference_primitive {kind : Primitive} (hget : g.get h = .primitive kind) :
    g.typeReference truncate names h = kind.token := by
  rw [typeReference, hget]

theorem typeReference_pointer (hg : g.Layered) {target : Handle} {size : Int}
    (hget : g.get h = .pointer target size) :
    g.typeReference truncate names h =
      "Pointer[" ++ g.typeReference truncate names target ++ "]" := by
  rw [typeReference, hget]
  simp only [if_pos (hg.target_lt hget)]

theorem typeReference_array (hg : g.Layered) {element : Handle} {length : Option Int}
    (hget : g.get h = .array element length) :
    g.typeReference truncate names h =
      "Array[" ++ g.typeReference truncate names element ++ ", " ++
        dimensionText length ++ "]" := by
  rw [typeReference, hget]
  simp only [if_pos (hg.element_lt hget), dimensionText]

theorem typeReference_named {table : NameTable} {ident : String}
    (hnamed : (g.get h).isNamed = true) (hident : table.get? h = some ident) :
    g.typeReference truncate (some table) h = ident := by
  rw [typeReference]
  cases hget : g.get h with
  | aggregate a => simp [namedReference, hident]
  | enumeration e => simp [namedReference, hident]
  | function f => simp [hident]
  | _ => simp [hget, Instance.isNamed] at hnamed

end Graph

/-! ## 3. Forms -/

/-- What an instance is referred to as. -/
inductive Form
  | scalar
  | pointer
  | array
  | declared
  deriving DecidableEq

/-- The form of references to an instance. -/
def Instance.form? : Instance → Option Form
  | primitive _ => some .scalar
  | pointer _ _ => some .pointer
  | array _ _ => some .array
  | undefined _ => none
  | _ => some .declared

theorem Instance.eq_primitive_of_form {i : Instance} (h : i.form? = some .scalar) :
    ∃ kind, i = .primitive kind := by
  cases i <;> simp [form?] at h ⊢

theorem Instance.eq_pointer_of_form {i : Instance} (h : i.form? = some .pointer) :
    ∃ target size, i = .pointer target size := by
  cases i <;> simp [form?] at h ⊢

theorem Instance.eq_array_of_form {i : Instance} (h : i.form? = some .array) :
    ∃ element length, i = .array element length := by
  cases i <;> simp [form?] at h ⊢

/-- At the bottom of what ends undefined stands something that is written in no form. -/
theorem Graph.EndsUndefined.exists_le {g : Graph} (hg : g.Layered) {h : Handle}
    (hends : g.EndsUndefined h) : ∃ x ≤ h, (g.get x).form? = none := by
  induction hends with
  | undefined hget => exact ⟨_, Nat.le_refl _, by rw [hget]; rfl⟩
  | pointer hget _ ih =>
    obtain ⟨x, hx, hnone⟩ := ih
    exact ⟨x, Nat.le_trans hx (Nat.le_of_lt (hg.target_lt hget)), hnone⟩
  | array hget _ ih =>
    obtain ⟨x, hx, hnone⟩ := ih
    exact ⟨x, Nat.le_trans hx (Nat.le_of_lt (hg.element_lt hget)), hnone⟩

/-- The form that a text has. -/
def Form.ofText (text : String) : Form :=
  if '[' ∈ text.toList then if text.toList.head? = some 'P' then pointer else array
  else if text ∈ Naming.reservedIdentifiers then scalar
  else declared

/-- No token looks like a pointer or an array. -/
theorem Form.ofText_token (kind : Primitive) : ofText kind.token = scalar := by
  cases kind <;> decide

/-- No identifier does, and none is a token. -/
theorem Form.ofText_ident {ident : String} (hident : Naming.isIdentifier ident = true)
    (hfree : ident ∉ Naming.reservedIdentifiers) : ofText ident = declared := by
  have hbracket : '[' ∉ ident.toList := by
    intro hmem
    rw [Naming.isIdentifier] at hident
    cases hchars : ident.toList with
    | nil => simp [hchars] at hmem
    | cons c cs =>
      simp only [hchars, Naming.areIdentifierChars, Bool.and_eq_true, List.all_eq_true] at hident
      rw [hchars] at hmem
      rcases List.mem_cons.mp hmem with rfl | hmem
      · exact absurd hident.1 (by decide)
      · exact absurd (hident.2 '[' hmem) (by decide)
  rw [ofText, if_neg hbracket, if_neg hfree]

namespace Resolver

variable {σ : Type} {s : State σ} {table : NameTable}

/-- The table gives every registered declaration an identifier of its own, which is not
reserved. -/
structure Names (s : State σ) (table : NameTable) : Prop where
  given : ∀ h, IsRegistered s h → (s.graph.get h).isNamed = true →
    ∃ ident, table.get? h = some ident
  injective : ∀ h h' ident, table.get? h = some ident → table.get? h' = some ident → h = h'
  free : ∀ h ident, table.get? h = some ident →
    ident ∉ Naming.reservedIdentifiers ∧ Naming.isIdentifier ident = true

theorem Names.of_allocate {policy : Naming.Policy} {module : String} {handles : List Handle}
    (hreserved : policy.reserved = Naming.reservedIdentifiers) (hnodup : handles.Nodup)
    (hall : ∀ h, IsRegistered s h → (s.graph.get h).isNamed = true → h ∈ handles)
    (htable : Naming.allocate policy module s.graph s.registry handles = .ok table) :
    Names s table where
  given := fun h hh hnamed =>
    Option.isSome_iff_exists.mp ((Naming.allocate_isSome_iff hnodup htable h).mpr
      ⟨hall h hh hnamed, hnamed⟩)
  injective := fun _ _ _ hget hget' => Naming.allocate_injective hnodup htable hget hget'
  free := fun _ _ hget => hreserved ▸ Naming.allocate_free hnodup htable hget

namespace Linked

variable (hs : Linked s)
include hs

theorem layered : s.graph.Layered := hs.below

/-- What is written by an identifier is named. -/
theorem isNamed_of_form {h : Handle} (hh : IsRegistered s h)
    (hform : (s.graph.get h).form? = some .declared) : (s.graph.get h).isNamed = true := by
  obtain ⟨key, hkey⟩ := Option.isSome_iff_exists.mp hh
  have hbuilt := hs.keyBuilt h key hkey
  cases hget : s.graph.get h with
  | aggregate a =>
    rw [hget] at hbuilt
    exact Bool.not_eq_true' _ ▸ hbuilt
  | enumeration e => rfl
  | function f => rfl
  | _ => simp [hget, Instance.form?] at hform

/-- The form of an instance is read off the text of a reference to it. -/
theorem form_typeReference (hn : Names s table) (truncate : Bool) {h : Handle} {form : Form}
    (hh : IsRegistered s h) (hform : (s.graph.get h).form? = some form) :
    Form.ofText (s.graph.typeReference truncate (some table) h) = form := by
  cases form with
  | declared =>
    have hnamed := hs.isNamed_of_form hh hform
    obtain ⟨ident, hident⟩ := hn.given h hh hnamed
    obtain ⟨hfree, hchars⟩ := hn.free h ident hident
    rw [Graph.typeReference_named hnamed hident, Form.ofText_ident hchars hfree]
  | scalar =>
    obtain ⟨kind, hget⟩ := Instance.eq_primitive_of_form hform
    rw [Graph.typeReference_primitive hget, Form.ofText_token]
  | pointer =>
    obtain ⟨target, size, hget⟩ := Instance.eq_pointer_of_form hform
    rw [Graph.typeReference_pointer hs.layered hget, Form.ofText]
    simp
  | array =>
    obtain ⟨element, length, hget⟩ := Instance.eq_array_of_form hform
    rw [Graph.typeReference_array hs.layered hget, Form.ofText]
    simp

/-- What is made of the same parts has the same key, so it is one instance. -/
theorem eq_of_primitive {a b : Handle} {kind : Primitive} (ha : IsRegistered s a)
    (hb : IsRegistered s b) (hget : s.graph.get a = .primitive kind)
    (hget' : s.graph.get b = .primitive kind) : a = b :=
  hs.coherent.keyOf?_inj (hs.key_of_primitive ha hget) (hs.key_of_primitive hb hget')

theorem eq_of_pointer {a b target : Handle} {size size' : Int} (ha : IsRegistered s a)
    (hb : IsRegistered s b) (hget : s.graph.get a = .pointer target size)
    (hget' : s.graph.get b = .pointer target size') : a = b := by
  obtain ⟨k, hk, hkey⟩ := hs.key_of_pointer ha hget
  obtain ⟨k', hk', hkey'⟩ := hs.key_of_pointer hb hget'
  obtain rfl := Option.some.inj (hk.symm.trans hk')
  exact hs.coherent.keyOf?_inj hkey hkey'

theorem eq_of_array {a b element : Handle} {length : Option Int} (ha : IsRegistered s a)
    (hb : IsRegistered s b) (hget : s.graph.get a = .array element length)
    (hget' : s.graph.get b = .array element length) : a = b := by
  obtain ⟨k, hk, hkey⟩ := hs.key_of_array ha hget
  obtain ⟨k', hk', hkey'⟩ := hs.key_of_array hb hget'
  obtain rfl := Option.some.inj (hk.symm.trans hk')
  exact hs.coherent.keyOf?_inj hkey hkey'

theorem registered_target {h target : Handle} {size : Int} (hh : IsRegistered s h)
    (hget : s.graph.get h = .pointer target size) : IsRegistered s target := by
  obtain ⟨k, hk, -⟩ := hs.key_of_pointer hh hget
  exact Option.isSome_iff_exists.mpr ⟨k, hk⟩

theorem registered_element {h element : Handle} {length : Option Int} (hh : IsRegistered s h)
    (hget : s.graph.get h = .array element length) : IsRegistered s element := by
  obtain ⟨k, hk, -⟩ := hs.key_of_array hh hget
  exact Option.isSome_iff_exists.mpr ⟨k, hk⟩

/-- References tell instances apart. The induction is on the first instance: pointers and arrays
stand behind what they are made of. -/
theorem eq_of_typeReference_eq (hn : Names s table) (truncate : Bool) {a b : Handle}
    (ha : IsRegistered s a) (hb : IsRegistered s b) (hends : ¬s.graph.EndsUndefined a)
    (hends' : ¬s.graph.EndsUndefined b)
    (htext : s.graph.typeReference truncate (some table) a =
      s.graph.typeReference truncate (some table) b) : a = b := by
  induction a using Nat.strongRecOn generalizing b with
  | ind a ih =>
    have hsome {h : Handle} (hends : ¬s.graph.EndsUndefined h) :
        ∃ form, (s.graph.get h).form? = some form := by
      cases hget : s.graph.get h with
      | undefined name => exact absurd (.undefined hget) hends
      | _ => exact ⟨_, rfl⟩
    obtain ⟨form, hform⟩ := hsome hends
    obtain ⟨form', hform'⟩ := hsome hends'
    have hforms : form = form' := by
      rw [← hs.form_typeReference hn truncate ha hform, htext,
        hs.form_typeReference hn truncate hb hform']
    subst hforms
    cases form with
    | scalar =>
      obtain ⟨kind, hget⟩ := Instance.eq_primitive_of_form hform
      obtain ⟨kind', hget'⟩ := Instance.eq_primitive_of_form hform'
      rw [Graph.typeReference_primitive hget, Graph.typeReference_primitive hget'] at htext
      obtain rfl := Primitive.token_injective htext
      exact hs.eq_of_primitive ha hb hget hget'
    | pointer =>
      obtain ⟨target, size, hget⟩ := Instance.eq_pointer_of_form hform
      obtain ⟨target', size', hget'⟩ := Instance.eq_pointer_of_form hform'
      rw [Graph.typeReference_pointer hs.layered hget,
        Graph.typeReference_pointer hs.layered hget'] at htext
      have hinner := (String.append_right_inj "Pointer[").mp ((String.append_left_inj "]").mp htext)
      have htarget : target = target' :=
        ih target (hs.layered.target_lt hget) (hs.registered_target ha hget)
          (hs.registered_target hb hget') (fun h => hends (.pointer hget h))
          (fun h => hends' (.pointer hget' h)) hinner
      subst htarget
      exact hs.eq_of_pointer ha hb hget hget'
    | array =>
      obtain ⟨element, length, hget⟩ := Instance.eq_array_of_form hform
      obtain ⟨element', length', hget'⟩ := Instance.eq_array_of_form hform'
      rw [Graph.typeReference_array hs.layered hget,
        Graph.typeReference_array hs.layered hget'] at htext
      obtain ⟨hinner, rfl⟩ := arrayText_inj htext
      have helement : element = element' :=
        ih element (hs.layered.element_lt hget) (hs.registered_element ha hget)
          (hs.registered_element hb hget') (fun h => hends (.array hget h))
          (fun h => hends' (.array hget' h)) hinner
      subst helement
      exact hs.eq_of_array ha hb hget hget'
    | declared =>
      have hnamed := hs.isNamed_of_form ha hform
      have hnamed' := hs.isNamed_of_form hb hform'
      obtain ⟨ident, hident⟩ := hn.given a ha hnamed
      obtain ⟨ident', hident'⟩ := hn.given b hb hnamed'
      rw [Graph.typeReference_named hnamed hident,
        Graph.typeReference_named hnamed' hident'] at htext
      exact hn.injective a b ident hident (htext ▸ hident')

end Linked

/-! ## 4. What requests lead to -/

variable {task : Task σ} {α : Type}

/-- The run leads from one state to the other, whether it returns or stops. -/
def Leads (run : Run σ α) (s s' : State σ) : Prop :=
  (∃ a, run s = .ok a s') ∨ ∃ e, run s = .error e s'

/-- The states that a resolver comes to, whether its requests return or stop. -/
inductive Built (task : Task σ) : State σ → Prop
  | start (session : σ) : Built task (State.start session)
  | resolve {s s' : State σ} {limits : Limits} {ref : Ref} : Built task s →
      Leads (resolve task limits ref) s s' → Built task s'
  | resolveAll {s s' : State σ} {limits : Limits} {refs : List Ref} : Built task s →
      Leads (resolveAll task limits refs) s s' → Built task s'

/-- What a run leads to is well formed, whether it returned or stopped. -/
theorem Telling.wellFormed {module : String} {run : Run σ α} {s' : State σ}
    {Q : α → State σ → Prop} (htells : Telling module s run Q) (hleads : Leads run s s') :
    WellFormed s' := by
  rcases hleads with ⟨a, hrun⟩ | ⟨e, hrun⟩
  · exact (htells.of_ok hrun).1.1
  · exact (htells.of_error hrun).1

theorem Built.wellFormed (h : Built task s) : WellFormed s := by
  induction h with
  | start session => exact (settled_start task.module session).toWellFormed
  | @resolve _ _ limits ref _ hleads ih => exact (telling_resolve limits ref ih).wellFormed hleads
  | @resolveAll _ _ limits refs _ hleads ih =>
    have hsteps := steps_declareAll (declares_declare task limits.depth) refs ih
    exact (hsteps.telling_drained limits.depth limits.total).wellFormed hleads

/-- **References tell instances apart.** In every state that a resolver comes to, where identifiers
that are not reserved were given to all declarations, two different registered instances are
referred to by different texts, unless one of them is undefined or leads to something undefined by
pointers and arrays. -/
theorem Built.typeReference_injective (h : Built task s) {policy : Naming.Policy}
    (hreserved : policy.reserved = Naming.reservedIdentifiers) {module : String}
    {handles : List Handle} (hnodup : handles.Nodup)
    (hall : ∀ h, IsRegistered s h → (s.graph.get h).isNamed = true → h ∈ handles)
    (htable : Naming.allocate policy module s.graph s.registry handles = .ok table)
    (truncate : Bool) {a b : Handle} (ha : IsRegistered s a) (hb : IsRegistered s b)
    (hends : ¬s.graph.EndsUndefined a) (hends' : ¬s.graph.EndsUndefined b) (hne : a ≠ b) :
    s.graph.typeReference truncate (some table) a ≠ s.graph.typeReference truncate (some table) b :=
  fun htext => hne (h.wellFormed.eq_of_typeReference_eq
    (.of_allocate hreserved hnodup hall htable) truncate ha hb hends hends' htext)

/-- A source of a struct with a pointer to itself and two arrays of numbers in it. -/
def linkSource : Source Unit where
  lookup session _ ref :=
    (.ok (match ref with
      | .name "Link" => some link
      | .name "int" => some (Shape.ofPrimitive "int" .int32)
      | _ => none), session)
  typeNames _ _ := .ok ["Link"]
  pointerSize _ _ := .ok 8
where
  /-- The struct. -/
  link : Shape :=
    Shape.ofAggregate "Link" (some 32) [⟨"next", .name "Link*", 0, none, none, false⟩,
      ⟨"items", .name "int[2]", 8, none, none, false⟩,
      ⟨"rows", .name "int[3]", 16, none, none, false⟩] [] false

/-- The struct, the pointer, the number and the two arrays are referred to by five texts. -/
theorem typeReference_injective_linkSource : ∃ s table, Built ⟨linkSource, "m"⟩ s ∧
    Naming.allocate {} "m" s.graph s.registry [0] = .ok table ∧
    ∀ a < 5, ∀ b < 5, a ≠ b → s.graph.typeReference true (some table) a ≠
      s.graph.typeReference true (some table) b := by
  have hrun : returns (resolveAll ⟨linkSource, "m"⟩ ⟨8, 8⟩ [.name "Link"]) (State.start ())
      (fun _ s => decide (s.graph.count = 5) &&
        ((List.range 5).all fun h => (s.graph.get h).form?.isSome) &&
        ((List.range 5).all fun h => !(s.graph.get h).isNamed || h = 0) &&
        (Naming.allocate {} "m" s.graph s.registry [0]).isOk) = true := by decide +kernel
  obtain ⟨roots, s, hs, hcheck⟩ := exists_of_returns hrun
  simp only [Bool.and_eq_true, decide_eq_true_eq, List.all_eq_true, List.mem_range] at hcheck
  obtain ⟨⟨⟨hcount, hforms⟩, hnamed⟩, hok⟩ := hcheck
  have hbuilt : Built ⟨linkSource, "m"⟩ s := .resolveAll (.start ()) (.inl ⟨roots, hs⟩)
  have hregistered (h : Handle) : IsRegistered s h ↔ h < 5 :=
    hcount ▸ hbuilt.wellFormed.registered h
  have hends (h : Handle) (hh : h < 5) : ¬s.graph.EndsUndefined h := by
    intro hends
    obtain ⟨x, hx, hnone⟩ := hends.exists_le hbuilt.wellFormed.layered
    have hsome := hforms x (Nat.lt_of_le_of_lt hx hh)
    rw [hnone] at hsome
    cases hsome
  cases htable : Naming.allocate {} "m" s.graph s.registry [0] with
  | error fault =>
    rw [htable] at hok
    cases hok
  | ok table =>
    refine ⟨s, table, hbuilt, htable, fun a ha b hb hne => ?_⟩
    refine Built.typeReference_injective hbuilt rfl (List.nodup_singleton 0) (fun h hh hname => ?_)
      htable true ((hregistered a).mpr ha) ((hregistered b).mpr hb) (hends a ha) (hends b hb) hne
    simpa [hname] using hnamed h ((hregistered h).mp hh)

end Resolver

end NativeTypes
