/-
NativeTypes.Proofs.Snapshot.Divided — a module divided over several forms.

A module may be opened again: what its forms describe is added to what is
there, so the tables of names and ids do not depend on where the forms of a
module are cut in two (`loadForms_append`). The size of pointers does. Every
module form sets it, to 8 if it gives none (`pointerSize_eq`), and only the
last one counts: entering a module commutes with all that is loaded into it
(`loadForms_addModule`). So the part that stands second decides, and the
answers are those of the undivided module exactly if it gives a size, or if
the first part leaves 8 (`loadRead_divided_iff`).
-/
import NativeTypes.Proofs.Snapshot.Outcomes
import NativeTypes.Proofs.Source.Additions
import NativeTypes.Proofs.Source.Lookups

namespace NativeTypes

/-! ## 1. Entering a module again -/

namespace Assoc

variable {α β : Type} [DecidableEq α]

theorem put_put (m : Assoc α β) (a : α) (v w : β) : put (put m a v) a w = put m a w := by
  induction m with
  | nil => simp [put]
  | cons p m ih =>
    obtain ⟨b, u⟩ := p
    by_cases h : b = a <;> simp [put, h, ih]

end Assoc

namespace ModuleTable

variable (table : ModuleTable) (pointerSize : Int) (shape : Shape)

/-- The tables with another size of pointers. -/
def withPointerSize : ModuleTable := { table with pointerSize }

theorem addName_withPointerSize :
    (table.withPointerSize pointerSize).addName shape =
      (table.addName shape).withPointerSize pointerSize := by
  have hhides (key : String) :
      (table.withPointerSize pointerSize).hides shape key = table.hides shape key := rfl
  cases hkey : keyOf? shape with
  | none => simp only [addName, hkey]
  | some key =>
    simp only [addName, hkey, hhides]
    split <;> rfl

/-- The size of pointers has no part in what is added. -/
theorem add_withPointerSize (id : Option Int) :
    (table.withPointerSize pointerSize).add shape id =
      (table.add shape id).withPointerSize pointerSize := by
  have hid : (table.withPointerSize pointerSize).addId (withId shape id) id =
      (table.addId (withId shape id) id).withPointerSize pointerSize := by
    cases id <;> rfl
  rw [add, hid, addName_withPointerSize, add]

end ModuleTable

namespace Catalog

theorem addModule_eq (c : Catalog) (module : String) (pointerSize : Int) :
    c.addModule module pointerSize =
      { c with
        tables := c.tables.put module ((c.tableOrNew module).withPointerSize pointerSize) } := rfl

theorem addModule_addModule (c : Catalog) (module : String) (m n : Int) :
    (c.addModule module m).addModule module n = c.addModule module n := by
  rw [addModule_eq _ _ n, addModule_eq, tableOrNew_put, if_pos rfl, Assoc.put_put]
  rfl

/-- A shape may be added before or after its module gets a size of pointers. -/
theorem add_addModule (c : Catalog) (module : String) (pointerSize : Int) (shape : Shape)
    (id : Option Int) :
    (c.addModule module pointerSize).add module shape id =
      (c.add module shape id).addModule module pointerSize := by
  rw [addModule_eq (c.add module shape id), addModule_eq, add, add, tableOrNew_put,
    tableOrNew_put, if_pos rfl, if_pos rfl, ModuleTable.add_withPointerSize, Assoc.put_put,
    Assoc.put_put]

theorem get?_addModule (c : Catalog) (module other : String) (pointerSize : Int) :
    (c.addModule module pointerSize).tables.get? other =
      if module = other then some ((c.tableOrNew module).withPointerSize pointerSize)
      else c.tables.get? other := by
  rw [addModule_eq, Assoc.get?_put]

/-- Two catalogs answer every question about every module alike. -/
def SameAnswers (c c' : Catalog) : Prop :=
  ∀ module, (∀ ref, (c.lookup module ref).1 = (c'.lookup module ref).1) ∧
    c.typeNames module = c'.typeNames module ∧ c.pointerSize module = c'.pointerSize module

theorem typeNames_addModule (c : Catalog) (module other : String) (m n : Int) :
    (c.addModule module m).typeNames other = (c.addModule module n).typeNames other := by
  simp only [typeNames, table, get?_addModule]
  by_cases h : module = other
  · simp only [if_pos h]
    rfl
  · simp only [if_neg h]

/-- The size of pointers is seen in answers about names as wide as pointers alone. -/
theorem lookup_addModule (c : Catalog) (module other : String) (m n : Int) {ref : Ref}
    (href : ∀ text, ref = .name text → ¬ Primitive.IsPointerWide text) :
    ((c.addModule module m).lookup other ref).1 = ((c.addModule module n).lookup other ref).1 := by
  by_cases h : module = other
  · have htable (n : Int) := (get?_addModule c module other n).trans (if_pos h)
    have hname : ((c.tableOrNew module).withPointerSize m).byName =
        ((c.tableOrNew module).withPointerSize n).byName := rfl
    have hid : ((c.tableOrNew module).withPointerSize m).byId =
        ((c.tableOrNew module).withPointerSize n).byId := rfl
    rw [lookup_eq_of_known (htable m), lookup_eq_of_known (htable n),
      ModuleTable.lookup_congr hname hid href]
  · have htable := (get?_addModule c module other m).trans (if_neg h)
    have htable' := (get?_addModule c module other n).trans (if_neg h)
    simp only [lookup, shape?, table, htable, htable']

theorem sameAnswers_addModule_iff (c : Catalog) (module : String) (m n : Int) :
    (c.addModule module m).SameAnswers (c.addModule module n) ↔ m = n := by
  constructor
  · intro h
    have hsize := (h module).2.2
    simpa [pointerSize, table, get?_addModule, Except.map, ModuleTable.withPointerSize]
      using hsize
  · rintro rfl other
    exact ⟨fun _ => rfl, rfl, rfl⟩

end Catalog

namespace Snapshot

open Sexp

/-! ## 2. The forms of a module -/

theorem loadForms_append (module : String) (xs ys : List Sexp) :
    loadForms module (xs ++ ys) = loadForms module xs >>= fun _ => loadForms module ys := by
  induction xs with
  | nil => rfl
  | cons x xs ih =>
    rw [List.cons_append, loadForms, ih, loadForms, bind_assoc]

/-- What a form does that is loaded: nothing, or it adds the shape that it describes. -/
theorem loadForm_eq_ok_iff {module : String} {x : Sexp} {c c' : Catalog} :
    loadForm module x c = .ok () c' ↔
      ((∃ values, x.form = .ok ("pointer-size", values)) ∧ c' = c) ∨
      ∃ tag items shape id, x.form = .ok (tag, items) ∧ tag ≠ "pointer-size" ∧
        entry module tag items = .ok (shape, id) ∧ ModuleTable.lacksKey shape = false ∧
        c' = c.add module shape id := by
  cases hx : x.form with
  | error fault => simp [loadForm_of_fault hx]
  | ok found =>
    obtain ⟨tag, items⟩ := found
    rw [loadForm_of_form hx]
    by_cases htag : tag = "pointer-size"
    · simp [htag, eq_comm (a := c)]
    · cases hentry : entry module tag items with
      | error fault =>
        have heq (next : Entry → Loading Unit) :
            (ofReading (.error fault) >>= next) c = .error (.malformed fault) c := rfl
        simp [htag, hentry, heq]
      | ok found =>
        obtain ⟨shape, id⟩ := found
        have heq : (ofReading (.ok (shape, id)) : Loading Entry) = pure (shape, id) := rfl
        cases hkey : ModuleTable.lacksKey shape <;>
          simp [htag, hentry, heq, hkey, eq_comm (a := c')]

/-- What one form adds to a module does not depend on the size of its pointers. -/
theorem loadForm_addModule {module : String} {x : Sexp} {c c' : Catalog} (pointerSize : Int)
    (h : loadForm module x c = .ok () c') :
    loadForm module x (c.addModule module pointerSize) =
      .ok () (c'.addModule module pointerSize) := by
  rw [loadForm_eq_ok_iff] at h ⊢
  obtain ⟨hsize, rfl⟩ | ⟨tag, items, shape, id, hx, htag, hentry, hkey, rfl⟩ := h
  · exact .inl ⟨hsize, rfl⟩
  · have hadd := Catalog.add_addModule c module pointerSize shape id
    exact .inr ⟨tag, items, shape, id, hx, htag, hentry, hkey, hadd.symm⟩

theorem loadForms_addModule {module : String} {xs : List Sexp} {c c' : Catalog}
    (pointerSize : Int) (h : loadForms module xs c = .ok () c') :
    loadForms module xs (c.addModule module pointerSize) =
      .ok () (c'.addModule module pointerSize) := by
  induction xs generalizing c with
  | nil =>
    cases h
    rfl
  | cons x xs ih =>
    obtain ⟨⟨⟩, next, hx, hxs⟩ := bind_eq_ok h
    exact (run_bind_ok (loadForm_addModule pointerSize hx)).trans (ih hxs)

/-! ## 3. The size that a module form gives -/

/-- The size of pointers that a form gives. -/
def statedSize? : Sexp → Option Int
  | list (symbol "pointer-size" :: integer n :: _) => some n
  | _ => none

/-- The last of the sizes that forms give, if any does. -/
def lastSize? (body : List Sexp) : Option Int := (body.filterMap statedSize?).getLast?

theorem lastSize?_append (xs ys : List Sexp) :
    lastSize? (xs ++ ys) = (lastSize? ys).or (lastSize? xs) := by
  rw [lastSize?, List.filterMap_append, List.getLast?_append]
  rfl

theorem lastSize?_cons (x : Sexp) (xs : List Sexp) :
    lastSize? (x :: xs) = (lastSize? xs).or (statedSize? x) := by
  rw [← List.singleton_append, lastSize?_append]
  cases hx : statedSize? x <;> simp [lastSize?, hx]

theorem pointerSize_cons_of_sized {x : Sexp} (h : Sized x) (current : Int) (xs : List Sexp) :
    pointerSize current (x :: xs) = pointerSize ((statedSize? x).getD current) xs := by
  obtain ⟨tag, items, hform, hsize⟩ := h
  obtain rfl := form_eq_ok_iff.mp hform
  by_cases htag : tag = "pointer-size"
  · subst htag
    obtain ⟨n, rest, rfl⟩ : ∃ n rest, items = integer n :: rest := hsize rfl
    rfl
  · have hnone : statedSize? (list (symbol tag :: items)) = none := by
      unfold statedSize?
      split
      · simp_all
      · rfl
    rw [hnone, pointerSize, hform]
    split <;> simp_all

/-- A module form gives the last size in it, and 8 if there is none. -/
theorem pointerSize_eq {body : List Sexp} (h : ∀ x ∈ body, Sized x) (current : Int) :
    pointerSize current body = .ok ((lastSize? body).getD current) := by
  induction body generalizing current with
  | nil => rfl
  | cons x xs ih =>
    obtain ⟨hx, hxs⟩ := List.forall_mem_cons.mp h
    rw [pointerSize_cons_of_sized hx, ih hxs, lastSize?_cons]
    cases lastSize? xs <;> rfl

/-! ## 4. One module in two forms -/

/-- A module form. -/
def moduleForm (name : Sexp) (body : List Sexp) : Sexp := list (symbol "module" :: name :: body)

theorem loadModule_moduleForm {name : Sexp} {module : String} {body : List Sexp}
    {c c' : Catalog} (hname : name.asText "module name" = .ok module)
    (hsized : ∀ x ∈ body, Sized x) (hbody : loadForms module body c = .ok () c') :
    loadModule (moduleForm name body) c =
      .ok () (c'.addModule module ((lastSize? body).getD 8)) := by
  have hmodule : IsModule (moduleForm name body) module body := ⟨name, rfl, hname⟩
  rw [hmodule.loadModule_eq, pointerSize_eq hsized]
  exact loadForms_addModule _ hbody

/-- **A module divided over two forms.** Wherever the forms of a module are cut in two, and
whether the parts stand in one text or are loaded one after the other: the modules list the same
names, and look-ups give the same shapes, but for names as wide as pointers. All answers are those
of the undivided module exactly if the second part gives a size of pointers, or the first leaves
the usual one. -/
theorem loadRead_divided_iff {name : Sexp} {xs ys : List Sexp}
    (hloads : Loads (moduleForm name (xs ++ ys))) (c : Catalog) :
    (∀ text, load text = loadRead (readForms text)) ∧ ∃ whole divided,
      loadRead (.ok [moduleForm name (xs ++ ys)]) c = .ok () whole ∧
      loadRead (.ok [moduleForm name xs, moduleForm name ys]) c = .ok () divided ∧
      (loadRead (.ok [moduleForm name xs]) >>= fun _ => loadRead (.ok [moduleForm name ys])) c =
        .ok () divided ∧
      (∀ module, divided.typeNames module = whole.typeNames module) ∧
      (∀ module ref, (∀ text, ref = .name text → ¬ Primitive.IsPointerWide text) →
        (divided.lookup module ref).1 = (whole.lookup module ref).1) ∧
      (divided.SameAnswers whole ↔ (lastSize? ys).isSome ∨ (lastSize? xs).getD 8 = 8) := by
  obtain ⟨module, body, ⟨name', hform, hname⟩, hsized, hpasses⟩ := hloads
  cases hform
  rw [List.forall_mem_append] at hsized hpasses
  obtain ⟨c₁, hxs⟩ := ((ends_loadForms module xs).ok_iff c).mpr hpasses.1
  obtain ⟨c₂, hys⟩ := ((ends_loadForms module ys).ok_iff c₁).mpr hpasses.2
  have hall : loadForms module (xs ++ ys) c = .ok () c₂ := by
    rw [loadForms_append, run_bind_ok hxs, hys]
  have hwhole := loadModule_moduleForm hname (List.forall_mem_append.mpr hsized) hall
  have hfirst := loadModule_moduleForm hname hsized.1 hxs
  have hsecond := loadModule_moduleForm hname hsized.2
    (loadForms_addModule ((lastSize? xs).getD 8) hys)
  rw [Catalog.addModule_addModule] at hsecond
  have hone {x : Sexp} {c c' : Catalog} (h : loadModule x c = .ok () c') :
      loadRead (.ok [x]) c = .ok () c' := run_bind_ok h
  refine ⟨fun _ => rfl, c₂.addModule module ((lastSize? (xs ++ ys)).getD 8),
    c₂.addModule module ((lastSize? ys).getD 8), hone hwhole,
    (run_bind_ok hfirst).trans (hone hsecond), (run_bind_ok (hone hfirst)).trans (hone hsecond),
    fun other => Catalog.typeNames_addModule ..,
    fun other ref href => Catalog.lookup_addModule c₂ module other _ _ href, ?_⟩
  rw [Catalog.sameAnswers_addModule_iff, lastSize?_append]
  cases lastSize? ys <;> simp [eq_comm]

/-- A struct that holds a `long`. -/
def longForm : Sexp :=
  list [symbol "struct", text "S", integer 4,
    list [symbol "field", text "n", text "long", integer 0]]

/-- Small pointers. -/
def smallForm : Sexp := list [symbol "pointer-size", integer 4]

/-- Cut before the size is given, a module stays the same. -/
theorem loadRead_divided_iff_small :
    Loads (moduleForm (text "m") ([longForm] ++ [smallForm])) ∧
      (lastSize? [smallForm]).isSome = true ∧
      ∃ whole divided,
        loadRead (.ok [moduleForm (text "m") [longForm, smallForm]]) {} = .ok () whole ∧
        loadRead (.ok [moduleForm (text "m") [longForm], moduleForm (text "m") [smallForm]]) {} =
          .ok () divided ∧ divided.SameAnswers whole := by
  have hloads : Loads (moduleForm (text "m") ([longForm] ++ [smallForm])) := by
    obtain ⟨c, hrun, -⟩ : ∃ c, loadModule (moduleForm (text "m") ([longForm] ++ [smallForm])) {} =
        .ok () c ∧ c.pointerSize "m" = .ok 4 := by decide +kernel
    exact ((ends_loadModule _).ok_iff {}).mp ⟨c, hrun⟩
  have hsize : (lastSize? [smallForm]).isSome = true := by decide
  obtain ⟨-, whole, divided, hwhole, hdivided, -, -, -, hsame⟩ := loadRead_divided_iff hloads {}
  exact ⟨hloads, hsize, whole, divided, hwhole, hdivided, hsame.mpr (.inl hsize)⟩

/-- Cut behind the size, it goes back to the usual one. -/
theorem exists_divided_unlike : ∃ whole divided,
    load "(module \"m\" (pointer-size 4))" {} = .ok () whole ∧
    load "(module \"m\" (pointer-size 4)) (module \"m\")" {} = .ok () divided ∧
    whole.pointerSize "m" = .ok 4 ∧ divided.pointerSize "m" = .ok 8 ∧
    (whole.lookup "m" (.name "long")).1 = .ok (some (Shape.ofPrimitive "long" .int32)) ∧
    (divided.lookup "m" (.name "long")).1 = .ok (some (Shape.ofPrimitive "long" .int64)) := by
  have hwhole : ∃ c, load "(module \"m\" (pointer-size 4))" {} = .ok () c ∧
      c.pointerSize "m" = .ok 4 ∧
      (c.lookup "m" (.name "long")).1 = .ok (some (Shape.ofPrimitive "long" .int32)) := by
    decide +kernel
  have hdivided : ∃ c, load "(module \"m\" (pointer-size 4)) (module \"m\")" {} = .ok () c ∧
      c.pointerSize "m" = .ok 8 ∧
      (c.lookup "m" (.name "long")).1 = .ok (some (Shape.ofPrimitive "long" .int64)) := by
    decide +kernel
  obtain ⟨whole, hload, hsize, hlong⟩ := hwhole
  obtain ⟨divided, hload', hsize', hlong'⟩ := hdivided
  exact ⟨whole, divided, hload, hload', hsize, hsize', hlong, hlong'⟩

end Snapshot

end NativeTypes
