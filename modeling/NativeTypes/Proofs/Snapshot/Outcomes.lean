/-
NativeTypes.Proofs.Snapshot.Outcomes — how loading a snapshot ends.

Loading is three runs inside each other: over the module forms of a text,
over the forms of a module, and over the same forms once more, for the size
of pointers, before the module is entered. Each of them goes on while what
it meets passes and ends at the first thing that does not (`StopsAt`), and
whether a form passes does not depend on what was loaded before. So the
forms alone say how the loading ends, whatever the reader made of the text.

A fault of the text is reported, with two exceptions
(`loadRead_reported_iff`): a `(pointer-size)` without a value, and a shape
whose name cannot be written. The first is out of reach of the checks that
all other forms have (`exists_valueless`).
-/
import NativeTypes.Snapshot
import NativeTypes.Proofs.Runs

namespace NativeTypes.Snapshot

open Sexp

/-! ## 1. The first of a list that does not pass -/

section

variable {α : Type} {passes fails : α → Prop}

/-- The first of a list that does not pass fails in this way. -/
def StopsAt (passes fails : α → Prop) (xs : List α) : Prop :=
  ∃ before x after, xs = before ++ x :: after ∧ (∀ y ∈ before, passes y) ∧ fails x

@[simp] theorem stopsAt_nil : ¬ StopsAt passes fails [] := by
  rintro ⟨before, x, after, hxs, -, -⟩
  simp at hxs

theorem stopsAt_cons (x : α) (xs : List α) :
    StopsAt passes fails (x :: xs) ↔ fails x ∨ passes x ∧ StopsAt passes fails xs := by
  constructor
  · rintro ⟨_ | ⟨y, before⟩, z, after, hxs, hbefore, hz⟩
    · obtain ⟨rfl, -⟩ := List.cons.inj hxs
      exact .inl hz
    · obtain ⟨rfl, htail⟩ := List.cons.inj hxs
      have hrest : ∀ w ∈ before, passes w := fun w hw => hbefore w (.tail _ hw)
      exact .inr ⟨hbefore x (.head _), before, z, after, htail, hrest, hz⟩
  · rintro (hx | ⟨hx, before, z, after, rfl, hbefore, hz⟩)
    · exact ⟨[], x, xs, rfl, by simp, hx⟩
    · exact ⟨x :: before, z, after, rfl, by simpa using ⟨hx, hbefore⟩, hz⟩

/-- Nothing fails where no failure is known. -/
theorem not_stopsAt_false (xs : List α) : ¬ StopsAt passes (fun _ => False) xs := by
  rintro ⟨-, -, -, -, -, hfail⟩
  exact hfail

end

/-! ## 2. The size of pointers -/

/-- A form that does not hold up the search for the size of pointers: what gives it holds an
integer. -/
def Sized (x : Sexp) : Prop :=
  ∃ tag items, x.form = .ok (tag, items) ∧
    (tag = "pointer-size" → ∃ value rest, items = integer value :: rest)

/-- A form that should give the size of pointers and holds nothing. -/
def Valueless (x : Sexp) : Prop := x.form = .ok ("pointer-size", [])

/-- How the search goes at its first form. -/
theorem pointerSize_cons (current : Int) (x : Sexp) (xs : List Sexp) :
    (Sized x ∧ ∃ next, pointerSize current (x :: xs) = pointerSize next xs) ∨
    (Valueless x ∧ pointerSize current (x :: xs) = .error .missingValue) ∨
    (¬ Sized x ∧ ¬ Valueless x ∧
      ∃ fault, pointerSize current (x :: xs) = .error (.malformed fault)) := by
  rw [pointerSize]
  cases hx : x.form with
  | error fault => exact .inr (.inr ⟨by simp [Sized, hx], by simp [Valueless, hx], _, rfl⟩)
  | ok found =>
    obtain ⟨tag, items⟩ := found
    by_cases htag : tag = "pointer-size"
    · subst htag
      cases items with
      | nil => exact .inr (.inl ⟨hx, rfl⟩)
      | cons value rest =>
        have hfull : ¬ Valueless x := by simp [Valueless, hx]
        cases value with
        | integer n => exact .inl ⟨⟨_, _, hx, fun _ => ⟨n, rest, rfl⟩⟩, n, rfl⟩
        | _ => exact .inr (.inr ⟨by simp [Sized, hx], hfull, _, rfl⟩)
    · refine .inl ⟨⟨tag, items, hx, fun h => absurd h htag⟩, current, ?_⟩
      split <;> simp_all

theorem pointerSize_eq_ok_iff (current : Int) (body : List Sexp) :
    (∃ n, pointerSize current body = .ok n) ↔ ∀ x ∈ body, Sized x := by
  induction body generalizing current with
  | nil => simp [pointerSize]
  | cons x xs ih =>
    obtain ⟨hx, next, heq⟩ | ⟨hx, heq⟩ | ⟨hx, -, fault, heq⟩ := pointerSize_cons current x xs
    · simp [heq, ih, hx]
    · have hsized : ¬ Sized x := by simp_all [Sized, Valueless]
      simp [heq, hsized]
    · simp [heq, hx]

theorem pointerSize_eq_missing_iff (current : Int) (body : List Sexp) :
    pointerSize current body = .error .missingValue ↔ StopsAt Sized Valueless body := by
  induction body generalizing current with
  | nil => simp [pointerSize]
  | cons x xs ih =>
    rw [stopsAt_cons]
    obtain ⟨hx, next, heq⟩ | ⟨hx, heq⟩ | ⟨hx, hfull, fault, heq⟩ := pointerSize_cons current x xs
    · have hfull : ¬ Valueless x := by
        obtain ⟨tag, items, hform, hvalue⟩ := hx
        rintro hnone
        cases hform.symm.trans hnone
        obtain ⟨value, rest, hitems⟩ := hvalue rfl
        cases hitems
      simp [heq, ih, hx, hfull]
    · simp [heq, hx]
    · simp [heq, hx, hfull]

theorem pointerSize_ne_tooManyDigits (current : Int) (body : List Sexp) :
    pointerSize current body ≠ .error .tooManyDigits := by
  induction body generalizing current with
  | nil => simp [pointerSize]
  | cons x xs ih =>
    obtain ⟨-, next, heq⟩ | ⟨-, heq⟩ | ⟨-, -, fault, heq⟩ := pointerSize_cons current x xs
    · rw [heq]
      exact ih next
    · simp [heq]
    · simp [heq]

/-! ## 3. The endings of a run -/

/-- How a run ends, whatever was loaded before: it returns, it stops for want of a value, it stops
at a name that cannot be written, each exactly when this holds, and else at a fault of the
text. -/
structure Ends (run : Loading Unit) (returns valueless unwritable : Prop) : Prop where
  ok_iff : ∀ c, (∃ c', run c = .ok () c') ↔ returns
  missing_iff : ∀ c, (∃ c', run c = .error .missingValue c') ↔ valueless
  digits_iff : ∀ c, (∃ c', run c = .error .tooManyDigits c') ↔ unwritable

namespace Ends

variable {run next : Loading Unit} {returns valueless unwritable : Prop}
  {returns' valueless' unwritable' : Prop}

theorem nothing : Ends (pure ()) True False False := by
  constructor <;> simp

theorem fault (fault : SnapshotFault) : Ends (throw (.malformed fault)) False False False := by
  constructor <;> simp

theorem missing : Ends (throw .missingValue) False True False := by
  constructor <;> simp

theorem digits (lacks : Bool) :
    Ends (if lacks then throw .tooManyDigits else pure ()) (lacks = false) False
      (lacks = true) := by
  cases lacks <;> constructor <;> simp

/-- A step that cannot stop, before a run. -/
theorem modify (h : Ends run returns valueless unwritable) (f : Catalog → Catalog) :
    Ends (modify f >>= fun _ => run) returns valueless unwritable where
  ok_iff c := h.ok_iff (f c)
  missing_iff c := h.missing_iff (f c)
  digits_iff c := h.digits_iff (f c)

/-- One run after another: the second is reached when the first returns. -/
theorem seq (h : Ends run returns valueless unwritable)
    (h' : Ends next returns' valueless' unwritable') :
    Ends (run >>= fun _ => next) (returns ∧ returns') (valueless ∨ returns ∧ valueless')
      (unwritable ∨ returns ∧ unwritable') := by
  constructor <;> intro c <;> rw [← h.ok_iff c]
  · cases hrun : run c with
    | ok a c' => simp [run_bind_ok hrun, h'.ok_iff]
    | error e c' => simp [run_bind_error hrun]
  · rw [← h.missing_iff c]
    cases hrun : run c with
    | ok a c' => simp [run_bind_ok hrun, h'.missing_iff]
    | error e c' => simp [run_bind_error hrun]
  · rw [← h.digits_iff c]
    cases hrun : run c with
    | ok a c' => simp [run_bind_ok hrun, h'.digits_iff]
    | error e c' => simp [run_bind_error hrun]

/-- What was read, and the run that goes on with it. -/
theorem reading {α : Type} {r : Reading α} {next : α → Loading Unit}
    {returns valueless unwritable : α → Prop}
    (h : ∀ a, r = .ok a → Ends (next a) (returns a) (valueless a) (unwritable a)) :
    Ends (ofReading r >>= next) (∃ a, r = .ok a ∧ returns a) (∃ a, r = .ok a ∧ valueless a)
      (∃ a, r = .ok a ∧ unwritable a) := by
  cases r with
  | error fault =>
    show Ends (throw (.malformed fault)) _ _ _
    simpa using Ends.fault fault
  | ok a =>
    show Ends (next a) _ _ _
    simpa using h a rfl

/-- A run for each of a list. -/
theorem each {α : Type} {run : α → Loading Unit} {runs : List α → Loading Unit}
    {returns valueless unwritable : α → Prop}
    (hnil : runs [] = pure ()) (hcons : ∀ x xs, runs (x :: xs) = run x >>= fun _ => runs xs)
    (h : ∀ x, Ends (run x) (returns x) (valueless x) (unwritable x)) (xs : List α) :
    Ends (runs xs) (∀ x ∈ xs, returns x) (StopsAt returns valueless xs)
      (StopsAt returns unwritable xs) := by
  induction xs with
  | nil => simpa [hnil] using nothing
  | cons x xs ih => simpa [hcons, stopsAt_cons] using (h x).seq ih

end Ends

/-! ## 4. The forms of a module -/

/-- A form that describes a shape. -/
def Describes (module : String) (x : Sexp) (shape : Shape) : Prop :=
  ∃ tag items id, x.form = .ok (tag, items) ∧ tag ≠ "pointer-size" ∧
    entry module tag items = .ok (shape, id)

/-- A form that is loaded: it gives the size of pointers, or a shape that is found by its name. -/
def Passes (module : String) (x : Sexp) : Prop :=
  (∃ values, x.form = .ok ("pointer-size", values)) ∨
    ∃ shape, Describes module x shape ∧ ModuleTable.lacksKey shape = false

/-- A form with a shape whose name cannot be written. -/
def Unwritable (module : String) (x : Sexp) : Prop :=
  ∃ shape, Describes module x shape ∧ ModuleTable.lacksKey shape = true

theorem describes_iff {module tag : String} {x : Sexp} {items : List Sexp}
    (hx : x.form = .ok (tag, items)) (shape : Shape) :
    Describes module x shape ↔
      tag ≠ "pointer-size" ∧ ∃ id, entry module tag items = .ok (shape, id) := by
  constructor
  · rintro ⟨tag', items', id, hx', htag, hentry⟩
    cases hx.symm.trans hx'
    exact ⟨htag, id, hentry⟩
  · rintro ⟨htag, id, hentry⟩
    exact ⟨tag, items, id, hx, htag, hentry⟩

theorem loadForm_of_fault {module : String} {x : Sexp} {fault : FormError}
    (hx : x.form = .error fault) : loadForm module x = throw (.malformed (.form fault)) := by
  rw [loadForm, hx]
  rfl

theorem loadForm_of_form {module tag : String} {x : Sexp} {items : List Sexp}
    (hx : x.form = .ok (tag, items)) :
    loadForm module x = if tag = "pointer-size" then pure () else
      ofReading (entry module tag items) >>= fun found =>
        (modify fun c => c.add module found.1 found.2) >>= fun _ =>
          if ModuleTable.lacksKey found.1 then throw .tooManyDigits else pure () := by
  rw [loadForm, hx]
  rfl

theorem ends_loadForm (module : String) (x : Sexp) :
    Ends (loadForm module x) (Passes module x) False (Unwritable module x) := by
  cases hx : x.form with
  | error fault =>
    simpa [loadForm_of_fault hx, Passes, Unwritable, Describes, hx] using Ends.fault _
  | ok found =>
    obtain ⟨tag, items⟩ := found
    rw [loadForm_of_form hx]
    by_cases htag : tag = "pointer-size"
    · simpa [htag, hx, Passes, Unwritable, describes_iff hx] using Ends.nothing
    · have hends := Ends.reading (r := entry module tag items) fun found _ =>
        (Ends.digits (ModuleTable.lacksKey found.1)).modify fun c => c.add module found.1 found.2
      simpa [htag, hx, Passes, Unwritable, describes_iff hx] using hends

theorem ends_loadForms (module : String) (body : List Sexp) :
    Ends (loadForms module body) (∀ x ∈ body, Passes module x)
      (StopsAt (Passes module) (fun _ => False) body)
      (StopsAt (Passes module) (Unwritable module) body) :=
  Ends.each rfl (fun _ _ => rfl) (ends_loadForm module) body

/-! ## 5. Module forms -/

/-- A module form with the name of the module and the forms in it. -/
def IsModule (x : Sexp) (module : String) (body : List Sexp) : Prop :=
  ∃ name, x.form = .ok ("module", name :: body) ∧ name.asText "module name" = .ok module

/-- A module form that is loaded. -/
def Loads (x : Sexp) : Prop :=
  ∃ module body, IsModule x module body ∧ (∀ y ∈ body, Sized y) ∧ ∀ y ∈ body, Passes module y

/-- A module form that is not entered, since the size of pointers is announced and not given. -/
def LacksSize (x : Sexp) : Prop :=
  ∃ module body, IsModule x module body ∧ StopsAt Sized Valueless body

/-- A module form that is left at a shape whose name cannot be written. -/
def LacksName (x : Sexp) : Prop :=
  ∃ module body, IsModule x module body ∧ (∀ y ∈ body, Sized y) ∧
    StopsAt (Passes module) (Unwritable module) body

/-- The search for the size of pointers, and what does not depend on the size found. -/
theorem ends_pointerSize {next : Int → Loading Unit} {returns unwritable : Prop}
    (h : ∀ n, Ends (next n) returns False unwritable) (current : Int) (body : List Sexp) :
    Ends (MonadExcept.ofExcept (pointerSize current body) >>= next)
      ((∀ x ∈ body, Sized x) ∧ returns) (StopsAt Sized Valueless body)
      ((∀ x ∈ body, Sized x) ∧ unwritable) := by
  have hok := pointerSize_eq_ok_iff current body
  have hmissing := pointerSize_eq_missing_iff current body
  cases hsize : pointerSize current body with
  | ok n =>
    rw [hsize] at hok hmissing
    have hsized : ∀ x ∈ body, Sized x := hok.1 ⟨n, rfl⟩
    show Ends (next n) _ _ _
    simpa [← hmissing, and_iff_right hsized] using h n
  | error e =>
    rw [hsize] at hok hmissing
    have hunsized : ¬ ∀ x ∈ body, Sized x := by simp [← hok]
    show Ends (throw e) _ _ _
    cases e with
    | malformed fault => simpa [← hmissing, hunsized] using Ends.fault fault
    | missingValue => simpa [← hmissing, hunsized] using Ends.missing
    | tooManyDigits => exact absurd hsize (pointerSize_ne_tooManyDigits current body)

/-- A module whose form was recognised. -/
theorem ends_entered (module : String) (body : List Sexp) :
    Ends (MonadExcept.ofExcept (pointerSize 8 body) >>= fun bytes =>
        (modify fun c => c.addModule module bytes) >>= fun _ => loadForms module body)
      ((∀ y ∈ body, Sized y) ∧ ∀ y ∈ body, Passes module y) (StopsAt Sized Valueless body)
      ((∀ y ∈ body, Sized y) ∧ StopsAt (Passes module) (Unwritable module) body) := by
  have hforms := ends_loadForms module body
  rw [eq_false (not_stopsAt_false body)] at hforms
  exact ends_pointerSize (fun bytes => hforms.modify fun c => c.addModule module bytes) 8 body

/-- What is no module form is a fault. -/
theorem loadModule_eq_throw {x : Sexp} (h : ∀ module body, ¬ IsModule x module body) :
    ∃ fault, loadModule x = throw (.malformed fault) := by
  cases hx : x.form with
  | error fault =>
    refine ⟨.form fault, ?_⟩
    rw [loadModule, hx]
    rfl
  | ok found =>
    obtain ⟨tag, items⟩ := found
    by_cases htag : tag = "module"
    · subst htag
      cases items with
      | nil =>
        refine ⟨.notModule x, ?_⟩
        rw [loadModule, hx]
        rfl
      | cons name body =>
        cases hname : name.asText "module name" with
        | ok module => exact absurd ⟨name, hx, hname⟩ (h module body)
        | error fault =>
          refine ⟨.form fault, ?_⟩
          rw [loadModule, hx]
          show ofReading (ofForm (name.asText "module name")) >>= _ = _
          rw [hname]
          rfl
    · refine ⟨.notModule x, ?_⟩
      rw [loadModule, hx]
      show (pure (tag, items) >>= _) = _
      rw [pure_bind]
      split
      · simp_all
      · rfl

theorem IsModule.unique {x : Sexp} {module module' : String} {body body' : List Sexp}
    (h : IsModule x module body) (h' : IsModule x module' body') :
    module' = module ∧ body' = body := by
  obtain ⟨name, hform, hname⟩ := h
  obtain ⟨name', hform', hname'⟩ := h'
  cases hform.symm.trans hform'
  cases hname.symm.trans hname'
  exact ⟨rfl, rfl⟩

theorem IsModule.exists_iff {x : Sexp} {module : String} {body : List Sexp}
    (h : IsModule x module body) (p : String → List Sexp → Prop) :
    (∃ module body, IsModule x module body ∧ p module body) ↔ p module body := by
  constructor
  · rintro ⟨module', body', h', hp⟩
    obtain ⟨rfl, rfl⟩ := h.unique h'
    exact hp
  · intro hp
    exact ⟨module, body, h, hp⟩

theorem IsModule.loadModule_eq {x : Sexp} {module : String} {body : List Sexp}
    (h : IsModule x module body) :
    loadModule x = MonadExcept.ofExcept (pointerSize 8 body) >>= fun bytes =>
      (modify fun c => c.addModule module bytes) >>= fun _ => loadForms module body := by
  obtain ⟨name, hform, hname⟩ := h
  rw [loadModule, hform]
  show ofReading (ofForm (name.asText "module name")) >>= _ = _
  rw [hname]
  rfl

theorem ends_loadModule (x : Sexp) :
    Ends (loadModule x) (Loads x) (LacksSize x) (LacksName x) := by
  by_cases hx : ∃ module body, IsModule x module body
  · obtain ⟨module, body, hmodule⟩ := hx
    rw [hmodule.loadModule_eq, Loads, LacksSize, LacksName, hmodule.exists_iff,
      hmodule.exists_iff, hmodule.exists_iff]
    exact ends_entered module body
  · have hnone : ∀ module body, ¬ IsModule x module body := by simpa using hx
    obtain ⟨fault, heq⟩ := loadModule_eq_throw hnone
    simpa [heq, Loads, LacksSize, LacksName, hnone] using Ends.fault fault

/-! ## 6. Whole snapshots -/

/-- Loading what a reader made of a text. -/
def loadRead (r : Except FormError (List Sexp)) : Loading Unit := do
  let forms ← ofReading (ofForm r)
  if forms.isEmpty then throw (.malformed .noModule)
  loadModules forms

theorem ends_loadRead (r : Except FormError (List Sexp)) :
    Ends (loadRead r) (∃ forms, r = .ok forms ∧ forms ≠ [] ∧ ∀ x ∈ forms, Loads x)
      (∃ forms, r = .ok forms ∧ StopsAt Loads LacksSize forms)
      (∃ forms, r = .ok forms ∧ StopsAt Loads LacksName forms) := by
  match r with
  | .error fault =>
    have heq : loadRead (.error fault) = throw (.malformed (.form fault)) := rfl
    simpa [heq] using Ends.fault _
  | .ok [] =>
    have heq : loadRead (.ok []) = throw (.malformed .noModule) := rfl
    simpa [heq] using Ends.fault _
  | .ok (x :: xs) =>
    have heq : loadRead (.ok (x :: xs)) = loadModules (x :: xs) := rfl
    simpa [heq] using Ends.each rfl (fun _ _ => rfl) ends_loadModule (x :: xs)

/-- Whatever a reader makes of a text, and whatever was loaded before: the loading returns or
reports what is malformed, unless the first module form that does not load announces the size of
pointers and does not give it, or has a shape whose name cannot be written. -/
theorem loadRead_reported_iff (text : String) (r : Except FormError (List Sexp)) (c : Catalog) :
    load text = loadRead (readForms text) ∧
      (((∃ c', loadRead r c = .ok () c') ∨
          ∃ fault c', loadRead r c = .error (.malformed fault) c') ↔
        ¬ ∃ forms, r = .ok forms ∧
          (StopsAt Loads LacksSize forms ∨ StopsAt Loads LacksName forms)) := by
  refine ⟨rfl, ?_⟩
  have hmissing := (ends_loadRead r).missing_iff c
  have hdigits := (ends_loadRead r).digits_iff c
  simp only [and_or_left, exists_or, ← hmissing, ← hdigits]
  cases hrun : loadRead r c with
  | ok a c' => simp
  | error e c' => cases e <;> simp

/-- A text whose only module announces the size of pointers and does not give it. -/
theorem exists_valueless :
    ∃ text, load text {} = .error .missingValue {} := by
  refine ⟨"(module \"m\" (pointer-size))", ?_⟩
  have hrun : (match load "(module \"m\" (pointer-size))" {} with
    | .error .missingValue c => c.tables.isEmpty && c.queries == 0
    | _ => false) = true := by decide +kernel
  split at hrun
  · rename_i c hload
    obtain ⟨tables, queries⟩ := c
    obtain ⟨rfl, rfl⟩ : tables = [] ∧ queries = 0 := by simpa using hrun
    exact hload
  · cases hrun

end NativeTypes.Snapshot
