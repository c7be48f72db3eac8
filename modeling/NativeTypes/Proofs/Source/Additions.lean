/-
NativeTypes.Proofs.Source.Additions — what the tables of a catalog hold after
shapes were added, and in which order it matters.

A name is found in the last shape added under its key that is no typedef, and
in the last typedef only where there is no such shape (`kept`); an id is found
in the last shape added under it. Both are read off the list of additions
(`byName_addAll`, `byId_addAll`), the step being one addition at the end of the
list. So the order matters only between additions that compete for one place
(`Addition.Clashes`): where none do, every order gives the same answers
(`addAll_correct`).

The tables are filled by overwriting, with an exception for typedefs, and an
invariant could be kept along the additions. But it would speak of the tables
and of the additions so far. Instead the additions for one key are taken out of
the list, and `kept` computes what must stand there from these alone. The order
of additions for other keys, and of those under other ids, is then gone from
the statement, and that permuted additions give the same answers is a fact
about a list of at most one typedef and one other shape (`kept_perm`).

The tables themselves do depend on the order, as the order in which keys were
entered is kept. What does not depend on it are the answers (`Agrees`).
-/
import NativeTypes.Proofs.Text.Sorted
import NativeTypes.Proofs.TypeName.Keys

namespace NativeTypes

/-! ## 1. What is kept of several shapes -/

/-- The last shape that is no typedef, or the last typedef if all are. -/
def kept (shapes : List Shape) : Option Shape :=
  (shapes.filter fun s => s.kind ≠ .typedef).getLast?.or
    (shapes.filter fun s => s.kind = .typedef).getLast?

/-- The last of those that pass, when one is added. -/
theorem getLast?_filter_concat (p : Shape → Bool) (shapes : List Shape) (s : Shape) :
    ((shapes ++ [s]).filter p).getLast? =
      if p s then some s else (shapes.filter p).getLast? := by
  rw [List.filter_append, List.filter_singleton]
  cases p s <;> simp only [Bool.cond_true, Bool.cond_false, List.append_nil, if_true,
    Bool.false_eq_true, if_false, List.getLast?_concat]

theorem of_getLast?_filter {p : Shape → Bool} {shapes : List Shape} {s : Shape}
    (h : (shapes.filter p).getLast? = some s) : p s = true :=
  (List.mem_filter.mp (List.mem_of_getLast? h)).2

/-- One more shape takes the place, unless it is a typedef and the place is held by none. -/
theorem kept_concat (shapes : List Shape) (s : Shape) :
    kept (shapes ++ [s]) =
      if s.kind = .typedef ∧ ((kept shapes).any fun old => old.kind ≠ .typedef) then kept shapes
      else some s := by
  simp only [kept, getLast?_filter_concat]
  by_cases hs : s.kind = .typedef
  · obtain hlast | ⟨old, hlast⟩ :=
      Option.eq_none_or_eq_some (shapes.filter fun s => s.kind ≠ .typedef).getLast?
    · obtain halias | ⟨old, halias⟩ :=
        Option.eq_none_or_eq_some (shapes.filter fun s => s.kind = .typedef).getLast?
      · simp only [hlast, halias, hs]
        simp
      · have hold := of_getLast?_filter halias
        simp only [hlast, halias, hs]
        simp_all
    · have hold := of_getLast?_filter hlast
      simp only [hlast, hs]
      simp_all
  · simp [hs]

theorem eq_of_perm_of_pairwise_false {α : Type} {xs ys : List α} (hperm : xs.Perm ys)
    (h : xs.Pairwise fun _ _ => False) : xs = ys := by
  match xs with
  | [] => exact hperm.nil_eq
  | [x] => exact List.singleton_perm.mp hperm
  | x :: y :: _ => exact (List.rel_of_pairwise_cons h (.head _)).elim

/-- Where at most one shape is a typedef and at most one is none, the order is of no account. -/
theorem kept_perm {shapes shapes' : List Shape} (hperm : shapes.Perm shapes')
    (hunlike : shapes.Pairwise fun a b => ¬ (a.kind = .typedef ↔ b.kind = .typedef)) :
    kept shapes = kept shapes' := by
  have hfilter (p : Shape → Bool) (hp : ∀ a b, p a = true → p b = true →
      (a.kind = .typedef ↔ b.kind = .typedef)) : shapes.filter p = shapes'.filter p := by
    refine eq_of_perm_of_pairwise_false (hperm.filter p) ?_
    refine List.pairwise_filter.mpr (hunlike.imp fun {a b} hab ha hb => hab (hp a b ha hb))
  rw [kept, kept, hfilter _ (by simp_all), hfilter _ (by simp_all)]

/-! ## 2. One addition to the tables of a module -/

namespace ModuleTable

@[simp] theorem kind_withId (shape : Shape) (id : Option Int) :
    (withId shape id).kind = shape.kind := by
  cases id <;> rfl

@[simp] theorem keyOf?_withId (shape : Shape) (id : Option Int) :
    keyOf? (withId shape id) = keyOf? shape := by
  cases id <;> rfl

@[simp] theorem byName_addId (table : ModuleTable) (shape : Shape) (id : Option Int) :
    (table.addId shape id).byName = table.byName := by
  cases id <;> rfl

@[simp] theorem byId_addName (table : ModuleTable) (shape : Shape) :
    (table.addName shape).byId = table.byId := by
  unfold addName
  split
  · rfl
  · split <;> rfl

@[simp] theorem pointerSize_add (table : ModuleTable) (shape : Shape) (id : Option Int) :
    (table.add shape id).pointerSize = table.pointerSize := by
  unfold add addName
  cases id <;> split <;> first | rfl | (split <;> rfl)

/-- What is found under a key after one addition, when these filled it before. -/
theorem byName_add {table : ModuleTable} {key : String} {shapes : List Shape}
    (h : table.byName.get? key = kept shapes) (shape : Shape) (id : Option Int) :
    (table.add shape id).byName.get? key =
      kept (shapes ++ if keyOf? shape = some key then [withId shape id] else []) := by
  rw [add, addName, keyOf?_withId]
  cases hkey : keyOf? shape with
  | none => simpa using h
  | some other =>
    by_cases hother : other = key
    · subst hother
      simp only [if_true, kept_concat, ← h, hides, byName_addId, kind_withId, Bool.and_eq_true,
        decide_eq_true_eq]
      split
      · simp
      · simp [Assoc.get?_put]
    · have hne : ¬ some other = some key := by simpa using hother
      simp only [if_neg hne, List.append_nil]
      split
      · simpa using h
      · simpa [Assoc.get?_put, hother] using h

/-- What is found under an id after one addition. -/
theorem byId_add (table : ModuleTable) (shape : Shape) (id : Option Int) (key : Int) :
    (table.add shape id).byId.get? key =
      if id = some key then some (withId shape id) else table.byId.get? key := by
  rw [add, byId_addName]
  cases id with
  | none => simp [addId]
  | some id => simp [addId, Assoc.get?_put]

/-- Two tables with the same entries, in whatever order they came. -/
structure Agrees (table table' : ModuleTable) : Prop where
  byName : ∀ key, table.byName.get? key = table'.byName.get? key
  byId : ∀ id, table.byId.get? id = table'.byId.get? id
  pointerSize : table.pointerSize = table'.pointerSize

/-- Look-ups are answered from the entries. -/
theorem Agrees.lookup_eq {table table' : ModuleTable} (h : table.Agrees table') (ref : Ref) :
    table.lookup ref = table'.lookup ref := by
  cases ref with
  | id value => simp only [lookup, h.byId]
  | name text => simp only [lookup, h.byName, h.pointerSize]

/-- Names are listed in alphabetical order. -/
theorem Agrees.typeNames_eq {table table' : ModuleTable} (h : table.Agrees table')
    (hkeyed : table.Keyed) (hkeyed' : table'.Keyed) : table.typeNames = table'.typeNames := by
  have hmem {key : String} {shape : Shape} :
      (key, shape) ∈ table.byName ↔ (key, shape) ∈ table'.byName := by
    constructor
    · intro hin
      exact Assoc.mem_of_get? ((h.byName key).symm.trans (Assoc.get?_of_mem hkeyed.nodup hin))
    · intro hin
      exact Assoc.mem_of_get? ((h.byName key).trans (Assoc.get?_of_mem hkeyed'.nodup hin))
  have hperm : table.byName.Perm table'.byName :=
    (List.perm_ext_iff_of_nodup (List.Nodup.of_map _ hkeyed.nodup)
      (List.Nodup.of_map _ hkeyed'.nodup)).mpr fun _ => hmem
  exact mergeSort_texts_eq ((hperm.filter _).map _)

end ModuleTable

/-! ## 3. Additions one after another -/

/-- A shape that is added to a module, with the id it is given. -/
structure Addition where
  module : String
  shape : Shape
  id : Option Int := none

namespace Addition

/-- The shape as the tables hold it. -/
def entry (x : Addition) : Shape := ModuleTable.withId x.shape x.id

/-- Two additions compete for one place: they give a module the same id, or two typedefs of one
key, or two shapes of one key that are no typedefs. -/
def Clashes (x y : Addition) : Prop :=
  x.module = y.module ∧
    ((∃ id, x.id = some id ∧ y.id = some id) ∨
      ∃ key, ModuleTable.keyOf? x.shape = some key ∧ ModuleTable.keyOf? y.shape = some key ∧
        (x.shape.kind = .typedef ↔ y.shape.kind = .typedef))

end Addition

namespace Catalog

/-- A catalog of these modules, with the sizes of their pointers and nothing in them. -/
def declared (modules : List (String × Int)) : Catalog :=
  modules.foldl (fun c m => c.addModule m.1 m.2) {}

/-- A catalog after these additions. -/
def addAll (c : Catalog) (xs : List Addition) : Catalog :=
  xs.foldl (fun c x => c.add x.module x.shape x.id) c

/-- What is added to a module under a key, in order. -/
def named (module key : String) (xs : List Addition) : List Shape :=
  (xs.filter fun x => x.module = module ∧ ModuleTable.keyOf? x.shape = some key).map
    Addition.entry

/-- What is added to a module under an id, in order. -/
def numbered (module : String) (id : Int) (xs : List Addition) : List Shape :=
  (xs.filter fun x => x.module = module ∧ x.id = some id).map Addition.entry

theorem tableOrNew_put (c : Catalog) (module other : String) (table : ModuleTable) :
    ({ c with tables := c.tables.put module table } : Catalog).tableOrNew other =
      if module = other then table else c.tableOrNew other := by
  rw [tableOrNew, Assoc.get?_put]
  split <;> rfl

theorem addAll_concat (c : Catalog) (xs : List Addition) (x : Addition) :
    c.addAll (xs ++ [x]) = (c.addAll xs).add x.module x.shape x.id := by
  simp [addAll]

theorem declared_concat (modules : List (String × Int)) (m : String × Int) :
    declared (modules ++ [m]) = (declared modules).addModule m.1 m.2 := by
  simp [declared]

/-- Modules that were declared hold nothing. -/
theorem tableOrNew_declared (modules : List (String × Int)) (module : String) :
    ((declared modules).tableOrNew module).byName = [] ∧
      ((declared modules).tableOrNew module).byId = [] := by
  induction modules using List.reverseRecOn with
  | nil => exact ⟨rfl, rfl⟩
  | append_singleton modules m ih =>
    rw [declared_concat, addModule, tableOrNew_put]
    split
    · rename_i heq
      rw [heq]
      exact ih
    · exact ih

theorem named_concat (module key : String) (xs : List Addition) (x : Addition) :
    named module key (xs ++ [x]) = named module key xs ++
      if x.module = module ∧ ModuleTable.keyOf? x.shape = some key then [x.entry] else [] := by
  rw [named, named, List.filter_append, List.map_append]
  by_cases h : x.module = module ∧ ModuleTable.keyOf? x.shape = some key <;> simp [h]

theorem numbered_concat (module : String) (id : Int) (xs : List Addition) (x : Addition) :
    numbered module id (xs ++ [x]) = numbered module id xs ++
      if x.module = module ∧ x.id = some id then [x.entry] else [] := by
  rw [numbered, numbered, List.filter_append, List.map_append]
  by_cases h : x.module = module ∧ x.id = some id <;> simp [h]

/-- By induction on the additions, the last one first. -/
theorem byName_addAll (modules : List (String × Int)) (xs : List Addition) (module key : String) :
    (((declared modules).addAll xs).tableOrNew module).byName.get? key =
      kept (named module key xs) := by
  induction xs using List.reverseRecOn with
  | nil =>
    rw [addAll, List.foldl_nil, (tableOrNew_declared modules module).1]
    rfl
  | append_singleton xs x ih =>
    rw [addAll_concat, add, tableOrNew_put, named_concat]
    by_cases hmodule : x.module = module
    · rw [if_pos hmodule, hmodule, ModuleTable.byName_add ih]
      simp only [true_and]
      rfl
    · simpa [hmodule] using ih

/-- Likewise. -/
theorem byId_addAll (modules : List (String × Int)) (xs : List Addition) (module : String)
    (id : Int) :
    (((declared modules).addAll xs).tableOrNew module).byId.get? id =
      (numbered module id xs).getLast? := by
  induction xs using List.reverseRecOn with
  | nil =>
    rw [addAll, List.foldl_nil, (tableOrNew_declared modules module).2]
    rfl
  | append_singleton xs x ih =>
    rw [addAll_concat, add, tableOrNew_put, numbered_concat]
    by_cases hmodule : x.module = module
    · rw [if_pos hmodule, hmodule, ModuleTable.byId_add, ih]
      by_cases hid : x.id = some id
      · simp [hid, Addition.entry]
      · simp [hid]
    · simpa [hmodule] using ih

theorem pointerSize_addAll (c : Catalog) (xs : List Addition) (module : String) :
    ((c.addAll xs).tableOrNew module).pointerSize = (c.tableOrNew module).pointerSize := by
  induction xs using List.reverseRecOn with
  | nil => rfl
  | append_singleton xs x ih =>
    rw [addAll_concat, add, tableOrNew_put]
    split
    · rename_i heq
      rw [ModuleTable.pointerSize_add, heq, ih]
    · exact ih

/-- The modules that are known after additions. -/
theorem isSome_tables_addAll (c : Catalog) (xs : List Addition) (module : String) :
    ((c.addAll xs).tables.get? module).isSome ↔
      (c.tables.get? module).isSome ∨ ∃ x ∈ xs, x.module = module := by
  induction xs using List.reverseRecOn with
  | nil => simp [addAll]
  | append_singleton xs x ih =>
    rw [addAll_concat, add, Assoc.get?_put]
    by_cases hmodule : x.module = module
    · simp [hmodule]
    · simp [hmodule, ih]

theorem Built.declared (modules : List (String × Int)) : (Catalog.declared modules).Built := by
  induction modules using List.reverseRecOn with
  | nil => exact .empty
  | append_singleton modules m ih =>
    rw [declared_concat]
    exact ih.addModule m.1 m.2

theorem Built.addAll {c : Catalog} (h : c.Built) (xs : List Addition) : (c.addAll xs).Built := by
  induction xs using List.reverseRecOn with
  | nil => exact h
  | append_singleton xs x ih =>
    rw [addAll_concat]
    exact ih.add x.module x.shape x.id

/-! ## 4. Additions in another order -/

variable {xs ys : List Addition}

/-- What is added under a key in another order. -/
theorem kept_named_perm (hperm : xs.Perm ys) (hapart : xs.Pairwise fun x y => ¬ x.Clashes y)
    (module key : String) : kept (named module key xs) = kept (named module key ys) := by
  refine kept_perm ((hperm.filter _).map _) ?_
  rw [named, List.pairwise_map, List.pairwise_filter]
  refine hapart.imp fun {x y} hxy hx hy halike => hxy ?_
  obtain ⟨hxm, hxk⟩ := of_decide_eq_true hx
  obtain ⟨hym, hyk⟩ := of_decide_eq_true hy
  refine ⟨hxm.trans hym.symm, .inr ⟨key, hxk, hyk, ?_⟩⟩
  simpa [Addition.entry] using halike

/-- What is added under an id is at most one shape. -/
theorem numbered_perm (hperm : xs.Perm ys) (hapart : xs.Pairwise fun x y => ¬ x.Clashes y)
    (module : String) (id : Int) : numbered module id xs = numbered module id ys := by
  refine eq_of_perm_of_pairwise_false ((hperm.filter _).map _) ?_
  rw [numbered, List.pairwise_map, List.pairwise_filter]
  refine hapart.imp fun {x y} hxy hx hy => hxy ?_
  obtain ⟨hxm, hxid⟩ := of_decide_eq_true hx
  obtain ⟨hym, hyid⟩ := of_decide_eq_true hy
  exact ⟨hxm.trans hym.symm, .inl ⟨id, hxid, hyid⟩⟩

theorem agrees_addAll (modules : List (String × Int)) (hperm : xs.Perm ys)
    (hapart : xs.Pairwise fun x y => ¬ x.Clashes y) (module : String) :
    (((declared modules).addAll xs).tableOrNew module).Agrees
      (((declared modules).addAll ys).tableOrNew module) where
  byName key := by rw [byName_addAll, byName_addAll, kept_named_perm hperm hapart]
  byId id := by rw [byId_addAll, byId_addAll, numbered_perm hperm hapart]
  pointerSize := by rw [pointerSize_addAll, pointerSize_addAll]

/-- A module is known in both orders or in neither, and its tables agree. -/
theorem table_addAll (modules : List (String × Int)) (hperm : xs.Perm ys)
    (hapart : xs.Pairwise fun x y => ¬ x.Clashes y) (module : String) :
    (((declared modules).addAll xs).tables.get? module = none ∧
        ((declared modules).addAll ys).tables.get? module = none) ∨
      ∃ table table', ((declared modules).addAll xs).tables.get? module = some table ∧
        ((declared modules).addAll ys).tables.get? module = some table' ∧ table.Agrees table' := by
  have hsome : (((declared modules).addAll xs).tables.get? module).isSome ↔
      (((declared modules).addAll ys).tables.get? module).isSome := by
    simp only [isSome_tables_addAll, hperm.mem_iff]
  have hagrees := agrees_addAll modules hperm hapart module
  simp only [tableOrNew] at hagrees
  cases hxs : ((declared modules).addAll xs).tables.get? module with
  | none =>
    rw [hxs] at hsome
    exact .inl ⟨rfl, by simpa using hsome⟩
  | some table =>
    rw [hxs] at hsome hagrees
    obtain ⟨table', hys⟩ := Option.isSome_iff_exists.mp (hsome.mp rfl)
    rw [hys] at hagrees
    exact .inr ⟨table, table', rfl, hys, hagrees⟩

/-- What the tables of declared modules hold after additions in any order: a name key has the last
shape that is no typedef, or the last typedef; an id has the last shape, which carries it. Where
no two additions compete for one place, the order makes no difference to any answer. -/
theorem addAll_correct (modules : List (String × Int)) (xs : List Addition) :
    (∀ module key, (((declared modules).addAll xs).tableOrNew module).byName.get? key =
      kept (named module key xs)) ∧
    (∀ module id, (((declared modules).addAll xs).tableOrNew module).byId.get? id =
      (numbered module id xs).getLast?) ∧
    (∀ module id, ∀ shape ∈ numbered module id xs, shape.typeId = some id) ∧
    ∀ ys, xs.Perm ys → (xs.Pairwise fun x y => ¬ x.Clashes y) → ∀ module,
      (∀ ref, (((declared modules).addAll xs).lookup module ref).1 =
        (((declared modules).addAll ys).lookup module ref).1) ∧
      ((declared modules).addAll xs).typeNames module =
        ((declared modules).addAll ys).typeNames module := by
  refine ⟨byName_addAll modules xs, byId_addAll modules xs, ?_, ?_⟩
  · intro module id shape hshape
    obtain ⟨x, hx, rfl⟩ := List.mem_map.mp hshape
    obtain ⟨-, hid⟩ := of_decide_eq_true (List.mem_filter.mp hx).2
    rw [Addition.entry, hid]
    rfl
  · intro ys hperm hapart module
    have hkeyed (xs : List Addition) {table : ModuleTable}
        (htable : ((declared modules).addAll xs).tables.get? module = some table) : table.Keyed :=
      ((Built.declared modules).addAll xs).keyed htable
    obtain ⟨hxs, hys⟩ | ⟨table, table', hxs, hys, hagrees⟩ :=
      table_addAll modules hperm hapart module
    · simp only [lookup, shape?, typeNames, table, hxs, hys]
      exact ⟨fun _ => trivial, trivial⟩
    · have hnames := hagrees.typeNames_eq (hkeyed xs hxs) (hkeyed ys hys)
      simp only [lookup, shape?, typeNames, Catalog.table, hxs, hys]
      refine ⟨fun ref => ?_, congrArg Except.ok hnames⟩
      show (table.lookup ref).mapError _ = (table'.lookup ref).mapError _
      rw [hagrees.lookup_eq]

/-- A struct and a typedef of the same name (`typedef struct Foo Foo;`). -/
def fooStruct : Addition := ⟨"m", Shape.ofAggregate "Foo" (some 4) [] [] false, some 1⟩

/-- The typedef. -/
def fooTypedef : Addition := ⟨"m", Shape.ofAlias "Foo" (.id 1), some 2⟩

theorem addAll_correct_foo :
    [fooTypedef, fooStruct].Perm [fooStruct, fooTypedef] ∧
      [fooTypedef, fooStruct].Pairwise (fun x y => ¬ x.Clashes y) ∧
      (((declared []).addAll [fooTypedef, fooStruct]).lookup "m" (.name "Foo")).1 =
        (((declared []).addAll [fooStruct, fooTypedef]).lookup "m" (.name "Foo")).1 ∧
      (((declared []).addAll [fooStruct, fooTypedef]).lookup "m" (.name ":: Foo")).1 =
        .ok (some fooStruct.entry) := by
  have hperm : [fooTypedef, fooStruct].Perm [fooStruct, fooTypedef] := List.Perm.swap ..
  have hapart : [fooTypedef, fooStruct].Pairwise fun x y => ¬ x.Clashes y := by
    simp [Addition.Clashes, fooTypedef, fooStruct, Shape.ofAlias, Shape.ofAggregate]
  obtain ⟨-, -, -, horder⟩ := addAll_correct [] [fooTypedef, fooStruct]
  exact ⟨hperm, hapart, (horder _ hperm hapart "m").1 (.name "Foo"), by decide +kernel⟩

end Catalog

end NativeTypes
