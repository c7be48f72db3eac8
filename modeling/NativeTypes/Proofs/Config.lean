/-
NativeTypes.Proofs.Config — what is read as a configuration, and what is valid.

Options change the settings one after another, each in its own way (`Sets`),
and so do those of a module (`SetsModule`). What a text of forms gives is said
by these two relations alone (`Gives`); reading finds it where there is
something to find (`settings_eq_ok_iff`), and returns it if it is valid
(`validate_eq_ok_iff`). In every other case a fault of the configuration is
reported, whatever the reader made of the text (`readFrom_reported`). A fault
of settings that are not valid says what is wrong with them
(`ConfigError.Blames`).

The relations have a rule for each option and nothing else: no order in which
things are looked at, and no fault. That reading agrees with them is an
equivalence for each option, by cases on the form; a list of options is an
induction that is made once for both kinds of lists (`inTurn_iff`).

The reader of forms is a parameter throughout. What it returns may be any list
of forms or any fault, and nothing is used of how it reads.
-/
import Mathlib.Data.List.Forall2
import NativeTypes.Config
import NativeTypes.Proofs.Runs

namespace NativeTypes

/-! ## 1. Valid settings

The checks are made one after another and the first that fails is reported. So what passes all of
them is valid, and a fault blames a setting for which the checks before it passed. -/

/-- Settings that a run can start with. -/
structure Config.Valid (c : Config) : Prop where
  workers : 1 ≤ c.maxWorkers
  modules : (c.modules.map ModuleSpec.name).Nodup
  runtime : c.runtimeModule ≠ ""

/-- The fault is one of these settings. -/
def ConfigError.Blames (c : Config) : ConfigError → Prop
  | .tooFewWorkers workers => workers = c.maxWorkers ∧ workers < 1
  | .moduleTwice name => 2 ≤ (c.modules.map ModuleSpec.name).count name
  | .noRuntimeModule => c.runtimeModule = ""
  | _ => False

namespace Config

/-- No name is found twice if all are different, and new to those seen before. -/
theorem firstRepeated_eq_none_iff (seen names : List String) :
    firstRepeated seen names = none ↔ names.Nodup ∧ ∀ name ∈ names, name ∉ seen := by
  induction names generalizing seen with
  | nil => simp [firstRepeated]
  | cons name names ih =>
    by_cases h : name ∈ seen
    · simp [firstRepeated, h]
    · simp only [firstRepeated, List.contains_eq_mem, decide_eq_true_eq, h, if_false, ih]
      grind

/-- A name that is found stands there, and elsewhere too. -/
theorem count_of_firstRepeated {seen names : List String} {name : String}
    (h : firstRepeated seen names = some name) : 2 ≤ (seen ++ names).count name := by
  induction names generalizing seen with
  | nil => cases h
  | cons first names ih =>
    by_cases hfirst : first ∈ seen
    · obtain rfl : first = name := by simpa [firstRepeated, hfirst] using h
      have hseen := List.count_pos_iff.mpr hfirst
      rw [List.count_append, List.count_cons_self]
      omega
    · have hrest : firstRepeated (first :: seen) names = some name := by
        simpa [firstRepeated, hfirst] using h
      have hcount := ih hrest
      rwa [List.perm_middle.count_eq]

/-- Exactly the valid settings pass. -/
theorem validate_eq_ok_iff (c : Config) : c.validate = .ok () ↔ c.Valid := by
  have hnames := firstRepeated_eq_none_iff [] (c.modules.map ModuleSpec.name)
  unfold validate
  split
  · exact iff_of_false nofun fun h => by have := h.workers; omega
  · split
    · rename_i hrepeated
      refine iff_of_false nofun fun h => ?_
      cases hrepeated.symm.trans (hnames.mpr ⟨h.modules, fun _ _ => by simp⟩)
    · rename_i hnone
      split
      · rename_i hempty
        exact iff_of_false nofun fun h => h.runtime (by simpa using hempty)
      · rename_i hempty
        exact iff_of_true rfl ⟨by omega, (hnames.mp hnone).1, by simpa using hempty⟩

/-- What is reported is one of the faults that the settings have. -/
theorem blames_of_validate {c : Config} {fault : ConfigError} (h : c.validate = .error fault) :
    fault.Blames c := by
  unfold validate at h
  split at h
  · cases h
    exact ⟨rfl, ‹_›⟩
  · split at h
    · cases h
      exact count_of_firstRepeated ‹_›
    · split at h
      · cases h
        simpa [ConfigError.Blames] using ‹c.runtimeModule.isEmpty = true›
      · cases h

/-! ## 2. What options say -/

open Sexp

/-- A symbol or a string with this text. -/
def IsText (x : Sexp) (s : String) : Prop := x = symbol s ∨ x = text s

/-- The truth itself, or a word for a truth value. -/
inductive IsTruth : Sexp → Bool → Prop
  | truth : IsTruth .truth true
  | word {x : Sexp} {word : String} {b : Bool} :
      IsText x word → truthOfWord word = some b → IsTruth x b

/-- Steps taken one after another, one for each of a list. -/
inductive InTurn {σ : Type} (step : Sexp → σ → σ → Prop) : List Sexp → σ → σ → Prop
  | nil (s : σ) : InTurn step [] s s
  | cons {x : Sexp} {xs : List Sexp} {s t u : σ} :
      step x s t → InTurn step xs t u → InTurn step (x :: xs) s u

/-- How an option changes the settings of a module. -/
inductive SetsModule (base : Option Path) : Sexp → ModuleSpec → ModuleSpec → Prop
  | elf {x : Sexp} {path : String} (spec : ModuleSpec) : IsText x path →
      SetsModule base (list [symbol "elf", x]) spec
        { spec with elf := some (Path.resolve base path) }
  | roots {xs : List Sexp} {names : List String} (spec : ModuleSpec) :
      List.Forall₂ IsText xs names →
      SetsModule base (list (symbol "roots" :: xs)) spec
        { spec with roots := spec.roots ++ names }

/-- How an option changes the settings. -/
inductive Sets (base : Option Path) : Sexp → Config → Config → Prop
  | writer {x : Sexp} {name : String} (c : Config) : IsText x name →
      Sets base (list [symbol "writer", x]) c { c with writer := name }
  | outputDir {x : Sexp} {path : String} (c : Config) : IsText x path →
      Sets base (list [symbol "output-dir", x]) c { c with outputDir := Path.resolve base path }
  | truncate {x : Sexp} {b : Bool} (c : Config) : IsTruth x b →
      Sets base (list [symbol "truncate-namespace", x]) c { c with truncateNamespace := b }
  | runtime {x : Sexp} {name : String} (c : Config) : IsText x name →
      Sets base (list [symbol "runtime-module", x]) c { c with runtimeModule := name }
  | workers (n : Int) (c : Config) :
      Sets base (list [symbol "max-workers", integer n]) c { c with maxWorkers := n }
  | snapshot {x : Sexp} {path : String} (c : Config) : IsText x path →
      Sets base (list [symbol "snapshot", x]) c
        { c with snapshots := c.snapshots ++ [Path.resolve base path] }
  | module {x : Sexp} {name : String} {options : List Sexp} {spec : ModuleSpec} (c : Config) :
      IsText x name → InTurn (SetsModule base) options { name } spec →
      Sets base (list (symbol "module" :: x :: options)) c
        { c with modules := c.modules ++ [spec] }

/-- The settings that a text of forms gives: those of its only form, a configuration, where all
that it leaves out is as usual. -/
def Gives (base : Option Path) (r : Except FormError (List Sexp)) (c : Config) : Prop :=
  ∃ options, r = .ok [list (symbol "config" :: options)] ∧ InTurn (Sets base) options {} c

/-! ## 3. Reading options

Each reading step returns exactly what its rule allows. -/

theorem ofForm_eq_ok_iff {α : Type} {r : Except FormError α} {a : α} :
    ofForm r = .ok a ↔ r = .ok a := by
  cases r <;> simp [ofForm, Except.mapError]

/-- A form with one item. -/
theorem single_eq_ok_iff {tag : String} {items : List Sexp} {x : Sexp} :
    single tag items = .ok x ↔ items = [x] := by
  unfold single
  split <;> simp_all

theorem except_bind_eq_ok_iff {ε α β : Type} {r : Except ε α} {next : α → Except ε β} {b : β} :
    r >>= next = .ok b ↔ ∃ a, r = .ok a ∧ next a = .ok b :=
  ⟨except_bind_eq_ok, by rintro ⟨a, rfl, h⟩; exact h⟩

/-- A form with one text. -/
theorem singleText_eq_ok_iff {tag what : String} {items : List Sexp} {s : String} :
    singleText tag what items = .ok s ↔ ∃ x, items = [x] ∧ IsText x s := by
  simp only [singleText, except_bind_eq_ok_iff, single_eq_ok_iff, ofForm_eq_ok_iff,
    asText_eq_ok_iff, IsText]

/-- Settings made of the single text of a form. -/
theorem singleText_map_eq_ok_iff {α : Type} {tag what : String} {items : List Sexp}
    {f : String → α} {a : α} :
    (do return f (← singleText tag what items)) = .ok a ↔
      ∃ x s, items = [x] ∧ IsText x s ∧ f s = a := by
  simp only [except_bind_eq_ok_iff, singleText_eq_ok_iff, pure, Except.pure, Except.ok.injEq]
  grind

theorem asBool_eq_ok_iff {what : String} {x : Sexp} {b : Bool} :
    asBool what x = .ok b ↔ IsTruth x b := by
  have hword {x : Sexp} {word : String} (hx : IsText x word) :
      asBool what x = .ok b ↔ truthOfWord word = some b := by
    rcases hx with rfl | rfl <;> cases h : truthOfWord word <;> simp [asBool, h]
  constructor
  · intro h
    cases x with
    | truth =>
      cases h
      exact .truth
    | symbol word => exact .word (.inl rfl) ((hword (.inl rfl)).mp h)
    | text word => exact .word (.inr rfl) ((hword (.inr rfl)).mp h)
    | integer | real | list | brackets | quote => cases h
  · intro h
    cases h with
    | truth => rfl
    | word hx hb => exact (hword hx).mpr hb

/-- What reads a list of options one after another takes the steps that it takes for each. -/
theorem inTurn_iff {ε σ : Type} {step : Sexp → σ → σ → Prop} {reads : σ → List Sexp → Except ε σ}
    (hnil : ∀ s, reads s [] = .ok s)
    (hcons : ∀ s x xs, reads s (x :: xs) = reads s [x] >>= fun t => reads t xs)
    (hone : ∀ s x t, reads s [x] = .ok t ↔ step x s t) (xs : List Sexp) (s u : σ) :
    reads s xs = .ok u ↔ InTurn step xs s u := by
  induction xs generalizing s with
  | nil =>
    rw [hnil, Except.ok.injEq]
    constructor
    · rintro rfl
      exact .nil s
    · rintro ⟨⟩
      rfl
  | cons x xs ih =>
    rw [hcons, except_bind_eq_ok_iff]
    constructor
    · rintro ⟨t, hx, hxs⟩
      exact .cons ((hone s x t).mp hx) ((ih t).mp hxs)
    · rintro (_ | ⟨hx, hxs⟩)
      exact ⟨_, (hone _ _ _).mpr hx, (ih _).mpr hxs⟩

/-- Root types are texts, each of them. -/
theorem roots_eq_ok_iff {xs : List Sexp} {names : List String} :
    (xs.mapM fun r => ofForm (r.asText "root type")) = .ok names ↔
      List.Forall₂ IsText xs names := by
  induction xs generalizing names with
  | nil => simp [pure, Except.pure, eq_comm]
  | cons x xs ih =>
    simp only [List.mapM_cons, except_bind_eq_ok_iff, ofForm_eq_ok_iff, asText_eq_ok_iff, ih]
    constructor
    · rintro ⟨name, hx, names, hxs, ⟨⟩⟩
      exact .cons hx hxs
    · rintro (_ | ⟨hx, hxs⟩)
      exact ⟨_, hx, _, hxs, rfl⟩

theorem moduleOptions_cons (base : Option Path) (spec : ModuleSpec) (x : Sexp)
    (xs : List Sexp) : moduleOptions base spec (x :: xs) =
      moduleOptions base spec [x] >>= fun spec => moduleOptions base spec xs := by
  simp only [moduleOptions, bind_assoc]
  refine bind_congr fun found => ?_
  by_cases helf : found.1 = "elf"
  · simp only [if_pos helf, bind_assoc]
    rfl
  · by_cases hroots : found.1 = "roots"
    · simp only [if_neg helf, if_pos hroots, bind_assoc]
      rfl
    · simp only [if_neg helf, if_neg hroots]
      rfl

/-- One option of a module, by its tag. -/
theorem moduleOption_eq_ok_iff {base : Option Path} {spec spec' : ModuleSpec} {x : Sexp} :
    moduleOptions base spec [x] = .ok spec' ↔ SetsModule base x spec spec' := by
  simp only [moduleOptions, except_bind_eq_ok_iff, ofForm_eq_ok_iff]
  constructor
  · rintro ⟨⟨tag, items⟩, hform, h⟩
    obtain rfl := form_eq_ok_iff.mp hform
    split at h
    · rename_i htag
      obtain ⟨path, hpath, hspec⟩ := except_bind_eq_ok h
      obtain ⟨x, rfl, hx⟩ := singleText_eq_ok_iff.mp hpath
      cases hspec
      subst htag
      exact .elf spec hx
    · split at h
      · rename_i htag
        obtain ⟨names, hnames, hspec⟩ := except_bind_eq_ok h
        cases hspec
        subst htag
        exact .roots spec (roots_eq_ok_iff.mp hnames)
      · cases h
  · intro h
    cases h with
    | elf spec hx =>
      refine ⟨("elf", _), rfl, except_bind_eq_ok_iff.mpr ⟨_, ?_, rfl⟩⟩
      exact singleText_eq_ok_iff.mpr ⟨_, rfl, hx⟩
    | roots spec hxs =>
      refine ⟨("roots", _), rfl, except_bind_eq_ok_iff.mpr ⟨_, ?_, rfl⟩⟩
      exact roots_eq_ok_iff.mpr hxs

/-- A module is its name and then its options. -/
theorem readModule_eq_ok_iff {base : Option Path} {items : List Sexp} {spec : ModuleSpec} :
    readModule base items = .ok spec ↔ ∃ x name options, items = x :: options ∧ IsText x name ∧
      InTurn (SetsModule base) options { name } spec := by
  have hoptions := inTurn_iff (fun _ => rfl) (moduleOptions_cons base)
    fun _ _ _ => moduleOption_eq_ok_iff
  cases items with
  | nil => simp [readModule]
  | cons x options =>
    simp only [readModule, except_bind_eq_ok_iff, ofForm_eq_ok_iff, asText_eq_ok_iff, hoptions]
    simp [IsText]

/-- One option of the whole configuration, by its tag. -/
theorem applyOption_eq_ok_iff {base : Option Path} {c c' : Config} {tag : String}
    {items : List Sexp} :
    applyOption base c tag items = .ok c' ↔ Sets base (list (symbol tag :: items)) c c' := by
  constructor
  · intro h
    unfold applyOption at h
    split at h
    · obtain ⟨x, name, rfl, hx, rfl⟩ := singleText_map_eq_ok_iff.mp h
      exact .writer c hx
    · obtain ⟨x, path, rfl, hx, rfl⟩ := singleText_map_eq_ok_iff.mp h
      exact .outputDir c hx
    · obtain ⟨x, hitems, h⟩ := except_bind_eq_ok h
      obtain rfl := single_eq_ok_iff.mp hitems
      obtain ⟨b, hb, ⟨⟩⟩ := except_bind_eq_ok (x := asBool _ x) h
      exact .truncate c (asBool_eq_ok_iff.mp hb)
    · obtain ⟨x, name, rfl, hx, rfl⟩ := singleText_map_eq_ok_iff.mp h
      exact .runtime c hx
    · obtain ⟨x, hitems, h⟩ := except_bind_eq_ok h
      obtain rfl := single_eq_ok_iff.mp hitems
      obtain ⟨n, hn, ⟨⟩⟩ := except_bind_eq_ok (x := ofForm (x.asInteger _)) h
      obtain rfl := asInteger_eq_ok_iff.mp (ofForm_eq_ok_iff.mp hn)
      exact .workers n c
    · obtain ⟨x, path, rfl, hx, rfl⟩ := singleText_map_eq_ok_iff.mp h
      exact .snapshot c hx
    · obtain ⟨spec, hspec, ⟨⟩⟩ := except_bind_eq_ok h
      obtain ⟨x, name, options, rfl, hx, hoptions⟩ := readModule_eq_ok_iff.mp hspec
      exact .module c hx hoptions
    · cases h
  · intro h
    cases h with
    | writer c hx => exact singleText_map_eq_ok_iff.mpr ⟨_, _, rfl, hx, rfl⟩
    | outputDir c hx => exact singleText_map_eq_ok_iff.mpr ⟨_, _, rfl, hx, rfl⟩
    | truncate c hx =>
      exact except_bind_eq_ok_iff.mpr ⟨_, rfl,
        except_bind_eq_ok_iff.mpr ⟨_, asBool_eq_ok_iff.mpr hx, rfl⟩⟩
    | runtime c hx => exact singleText_map_eq_ok_iff.mpr ⟨_, _, rfl, hx, rfl⟩
    | workers n c => rfl
    | snapshot c hx => exact singleText_map_eq_ok_iff.mpr ⟨_, _, rfl, hx, rfl⟩
    | module c hx hoptions =>
      exact except_bind_eq_ok_iff.mpr ⟨_,
        readModule_eq_ok_iff.mpr ⟨_, _, _, rfl, hx, hoptions⟩, rfl⟩

theorem applyOptions_eq_ok_iff {base : Option Path} {options : List Sexp} {c c' : Config} :
    applyOptions base c options = .ok c' ↔ InTurn (Sets base) options c c' := by
  have hcons (c : Config) (x : Sexp) (xs : List Sexp) : applyOptions base c (x :: xs) =
      applyOptions base c [x] >>= fun c => applyOptions base c xs := by
    simp only [applyOptions, bind_assoc]
    rfl
  have hone (c : Config) (x : Sexp) (c' : Config) :
      applyOptions base c [x] = .ok c' ↔ Sets base x c c' := by
    simp only [applyOptions, except_bind_eq_ok_iff, ofForm_eq_ok_iff]
    constructor
    · rintro ⟨⟨tag, items⟩, hform, c'', hc, ⟨⟩⟩
      obtain rfl := form_eq_ok_iff.mp hform
      exact applyOption_eq_ok_iff.mp hc
    · intro h
      obtain ⟨tag, items, rfl⟩ : ∃ tag items, x = list (symbol tag :: items) := by
        cases h <;> exact ⟨_, _, rfl⟩
      exact ⟨(tag, items), rfl, c', applyOption_eq_ok_iff.mpr h, rfl⟩
  exact inTurn_iff (fun _ => rfl) hcons hone options c c'

/-! ## 4. Reading configurations

Reading is what the reader made of the text, the settings in it, and the check of these. -/

/-- The settings that forms give, valid or not. -/
def settings (base : Option Path) (r : Except FormError (List Sexp)) :
    Except ConfigError Config := do
  match ← ofForm r with
  | [x] =>
    let (tag, items) ← ofForm x.form
    if tag ≠ "config" then throw .notSingle
    applyOptions base {} items
  | _ => throw .notSingle

/-- Reading what a reader made of a text. -/
def readFrom (base : Option Path) (r : Except FormError (List Sexp)) :
    Except ConfigError Config := do
  let c ← settings base r
  c.validate
  return c

theorem read_eq (base : Option Path) (text : String) :
    read base text = readFrom base (readForms text) := by
  unfold read readFrom settings
  cases ofForm (readForms text) with
  | error fault => rfl
  | ok forms =>
    match forms with
    | [] => rfl
    | [x] =>
      show (ofForm x.form >>= _) = (ofForm x.form >>= _) >>= _
      rw [bind_assoc]
      refine bind_congr fun found => ?_
      by_cases htag : found.1 ≠ "config"
      · simp only [if_pos htag]
        rfl
      · simp only [if_neg htag]
    | _ :: _ :: _ => rfl

theorem settings_eq_ok_iff {base : Option Path} {r : Except FormError (List Sexp)} {c : Config} :
    settings base r = .ok c ↔ Gives base r c := by
  constructor
  · intro h
    obtain ⟨forms, hforms, h⟩ := except_bind_eq_ok (x := ofForm r) h
    split at h
    · obtain ⟨⟨tag, options⟩, hform, h⟩ := except_bind_eq_ok h
      obtain rfl := form_eq_ok_iff.mp (ofForm_eq_ok_iff.mp hform)
      by_cases htag : tag = "config"
      · subst htag
        exact ⟨options, ofForm_eq_ok_iff.mp hforms, applyOptions_eq_ok_iff.mp h⟩
      · have hthrow := (if_pos htag).symm.trans h
        cases hthrow
    · cases h
  · rintro ⟨options, rfl, hoptions⟩
    exact applyOptions_eq_ok_iff.mpr hoptions

theorem readFrom_eq_ok_iff {base : Option Path} {r : Except FormError (List Sexp)} {c : Config} :
    readFrom base r = .ok c ↔ Gives base r c ∧ c.Valid := by
  simp only [readFrom, except_bind_eq_ok_iff, settings_eq_ok_iff, pure, Except.pure,
    Except.ok.injEq]
  constructor
  · rintro ⟨c', hgives, _, hvalid, rfl⟩
    exact ⟨hgives, (validate_eq_ok_iff c').mp hvalid⟩
  · rintro ⟨hgives, hvalid⟩
    exact ⟨c, hgives, (), (validate_eq_ok_iff c).mpr hvalid, rfl⟩

/-- Settings that are given and not valid are answered with what is wrong with them. -/
theorem blames_of_gives {base : Option Path} {r : Except FormError (List Sexp)} {c : Config}
    (hgives : Gives base r c) (hvalid : ¬ c.Valid) :
    ∃ fault, readFrom base r = .error fault ∧ fault.Blames c := by
  have hread : readFrom base r = c.validate >>= fun _ => .ok c := by
    rw [readFrom, settings_eq_ok_iff.mpr hgives]
    rfl
  cases hfault : c.validate with
  | ok _ => exact absurd ((validate_eq_ok_iff c).mp hfault) hvalid
  | error fault => exact ⟨fault, by rw [hread, hfault]; rfl, blames_of_validate hfault⟩

/-- Reading ends with a valid configuration or with a fault of the configuration, whatever the
reader made of the text. It is the configuration that the forms give when they give a valid one,
and the fault blames what they give when that is not valid. -/
theorem readFrom_reported (base : Option Path) (r : Except FormError (List Sexp)) :
    (∀ text, read base text = readFrom base (readForms text)) ∧
      ((∃ c, readFrom base r = .ok c ∧ c.Valid) ∨ ∃ fault, readFrom base r = .error fault) ∧
      (∀ c, readFrom base r = .ok c ↔ Gives base r c ∧ c.Valid) ∧
      ∀ c, Gives base r c → ¬ c.Valid →
        ∃ fault, readFrom base r = .error fault ∧ fault.Blames c := by
  refine ⟨read_eq base, ?_, fun _ => readFrom_eq_ok_iff, fun _ => blames_of_gives⟩
  cases hread : readFrom base r with
  | ok c => exact .inl ⟨c, rfl, (readFrom_eq_ok_iff.mp hread).2⟩
  | error fault => exact .inr ⟨fault, rfl⟩

end Config

end NativeTypes
