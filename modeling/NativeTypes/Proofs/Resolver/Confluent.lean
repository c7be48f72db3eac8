/-
NativeTypes.Proofs.Resolver.Confluent — where by-value cycles are cut does not
depend on the order of the roots.

A plain module lists structs and unions under their own names, whose parts are
type names: declarators over listed names, over built-in ones or over unknown
ones (`PlainModule`). Two resolvers are asked for its names in different
orders. If both return, the same keys are invalid, and every aggregate has the
same bases and fields (`resolveAll_confluent`), whatever the limits and
whatever the sessions failed at meanwhile. What is reported may differ: a cycle
is reported where it was entered.

The exception is a module that lists a type named `void` and also refers to the
built-in one, as `std::void` (`MixesVoid`): the two have the same key, so the
first one that is declared stands for both (`exists_unconfluent`).

The argument itself is about descriptions in which keys say what they are of,
and was made for these. What is left is to read off the tables of a module that
its description is one: a listed name belongs to a struct or union, and a name
that is not listed is built in or unknown. A scalar has a key that could be a
name only if a built-in name is listed too, and lists that do this are excluded
by the token of that name, but for `void`, whose token is its name.
-/
import NativeTypes.Proofs.Resolver.Outcomes

namespace NativeTypes

/-! ## 1. The built-in `void` -/

namespace Primitive

/-- A name with the built-in scope in front, or without. -/
theorem withoutStd_cases {name text : String} (h : withoutStd name = text) :
    name = text ∨ name = "std::" ++ text := by
  unfold withoutStd at h
  split at h
  · rename_i rest hrest
    subst h
    refine .inr (String.ext ?_)
    simpa [String.toList_append] using Scanner.eq_append_of_after? hrest
  · exact .inl h

theorem eq_void_of_fixedNames {text : String} (h : fixedNames.lookup text = some .void) :
    text = "void" := by
  have honly : ∀ entry ∈ fixedNames, entry.2 = .void → entry.1 = "void" := by decide
  obtain ⟨l₁, l₂, hsplit, -⟩ := List.lookup_eq_some_iff.mp h
  exact honly (text, .void) (hsplit ▸ by simp) rfl

theorem integer_ne_void {n : Int} {signed : Bool} : integer n signed ≠ .ok .void := by
  intro h
  unfold integer at h
  split at h
  · cases hfind : ofToken? ((if signed then "int" else "uint") ++ toString (n * 8)) with
    | none =>
      rw [ofToken, hfind] at h
      cases h
    | some kind =>
      rw [ofToken, hfind] at h
      cases h
      have hlist := congrArg String.toList (token_of_ofToken? hfind)
      rw [String.toList_append] at hlist
      cases signed <;> cases hlist
  · cases h

/-- The built-in `void` has two canonical names. -/
theorem void_names {name : String} {n : Int} (hname : Resolver.IsDescribed (.name name))
    (h : ofBuiltinName name n = .ok (some .void)) : name = "void" ∨ name = "std::void" := by
  obtain ⟨t, hparse, -, hformat⟩ := hname
  have hnormal : TypeName.normalize name = .ok name ∨
      TypeName.normalize name = .error .tooManyDigits := by
    simp only [TypeName.normalize, hparse, TypeName.written?, hformat]
    cases t.isWritable
    · exact .inr rfl
    · exact .inl rfl
  rcases hnormal with hnormal | hnormal
  · simp only [ofBuiltinName, hnormal] at h
    split at h
    · rename_i kind hfixed
      cases h
      exact withoutStd_cases (eq_void_of_fixedNames hfixed)
    · split at h
      · rename_i signed _
        cases hkind : integer n signed with
        | error e =>
          rw [hkind] at h
          cases h
        | ok kind =>
          rw [hkind] at h
          cases h
          exact absurd hkind integer_ne_void
      · cases h
  · simp only [ofBuiltinName, hnormal] at h
    cases h

end Primitive

namespace Resolver

variable {σ : Type} {c : Catalog} {module text base : String} {shape : Shape}

/-- The name is not the token of a scalar, unless it is `void`. -/
def IsFreeName (name : String) : Prop := Primitive.ofToken? name = none ∨ name = "void"

instance (name : String) : Decidable (IsFreeName name) := inferInstanceAs (Decidable (_ ∨ _))

/-- The struct or union goes by this name, and its parts are declarators over names. -/
structure PlainShape (text : String) (shape : Shape) : Prop where
  aggregate : shape.isAggregate = true
  name : shape.name = text
  described : IsDescribed (.name text)
  template : (TypeName.parsePlain? text).filter TypeName.isTemplate = none
  free : IsFreeName text
  parts : ∀ ref ∈ shape.partRefs, ∃ text base suffixes, ref = .name text ∧
    Unwraps text base suffixes ∧ IsFreeName base

/-- The module is known and lists plain structs and unions only. -/
structure PlainModule (c : Catalog) (module : String) : Prop where
  known : (c.tables.get? module).isSome = true
  listed : ∀ text shape, c.listed? module text = some shape → PlainShape text shape

/-- A type named `void` is listed, and a part of a listed type is the built-in one. -/
def MixesVoid (c : Catalog) (module : String) : Prop :=
  (c.listed? module "void").isSome ∧ c.listed? module "std::void" = none ∧
    ∃ text shape ref suffixes, c.listed? module text = some shape ∧ .name ref ∈ shape.partRefs ∧
      Unwraps ref "std::void" suffixes

theorem PlainShape.kind_ne (h : PlainShape text shape) : shape.kind ≠ .primitive := by
  intro he
  have hagg := h.aggregate
  rw [Shape.isAggregate, he] at hagg
  cases hagg

theorem PlainModule.listed_of_shows (h : PlainModule c module)
    (hshows : Shows (c.describe module) (.name text) shape) (hkind : shape.kind ≠ .primitive) :
    PlainShape text shape :=
  h.listed text shape (Catalog.listed_of_describe hshows.described hshows.eq hkind)

/-- What a plain module describes as a scalar is not listed. -/
theorem PlainModule.builtin_of_scalar (h : PlainModule c module)
    (hshape : c.describe module (.name text) = some shape) (hkind : shape.kind = .primitive) :
    (IsDescribed (.name text) → c.listed? module text = none) ∧ ∃ n kind,
      Primitive.ofBuiltinName text n = .ok (some kind) ∧ shape = Shape.ofPrimitive text kind := by
  obtain ⟨table, htable, hlookup⟩ := Catalog.lookup_of_describe hshape
  rw [ModuleTable.lookup] at hlookup
  split at hlookup
  · cases hlookup
  · rename_i key hkey
    split at hlookup
    · rename_i found hfound
      cases hlookup
      have hlisted : c.listed? module key = some shape := by
        rw [Catalog.listed?, htable]
        exact hfound
      exact absurd hkind (h.listed key shape hlisted).kind_ne
    · rename_i hfree
      refine ⟨fun hdescribed => ?_, ?_⟩
      · obtain ⟨t, hparse, -, hformat⟩ := hdescribed
        obtain rfl : text = key := by
          simp only [TypeName.nameKey?, hparse, TypeName.written?, Option.ite_none_right_eq_some,
            Option.some.injEq] at hkey
          exact hformat.symm.trans hkey.2
        rw [Catalog.listed?, htable]
        exact hfree
      · cases hbuiltin : Primitive.ofBuiltinName text table.pointerSize with
        | error e =>
          rw [hbuiltin] at hlookup
          cases hlookup
        | ok kind =>
          rw [hbuiltin] at hlookup
          cases kind with
          | none => cases hlookup
          | some kind =>
            cases hlookup
            exact ⟨table.pointerSize, kind, hbuiltin, rfl⟩

/-- The built-in name is always described. -/
theorem PlainModule.describe_void (h : PlainModule c module) :
    c.describe module (.name "void") ≠ none := by
  obtain ⟨table, htable⟩ := Option.isSome_iff_exists.mp h.known
  have hkey : TypeName.nameKey? "void" = some "void" := by decide +kernel
  have hkind (n : Int) : Primitive.ofBuiltinName "void" n = .ok (some .void) := by
    have hnormal : TypeName.normalize "void" = .ok "void" := by decide +kernel
    have hfixed : Primitive.fixedNames.lookup (Primitive.withoutStd "void") = some .void := by
      decide +kernel
    simp only [Primitive.ofBuiltinName, hnormal, hfixed]
  have hshape : c.shape? module (.name "void") =
      (table.lookup (.name "void")).mapError .primitive := by
    rw [Catalog.shape?, Catalog.table, htable]
    rfl
  rw [Catalog.describe, hshape]
  simp only [ModuleTable.lookup, hkey, hkind]
  cases table.byName.get? "void" <;> rintro ⟨⟩

/-- A name takes no scalar's key where the two kinds of `void` do not meet. -/
theorem PlainModule.plainBase (h : PlainModule c module) (hdescribed : IsDescribed (.name base))
    (hfree : IsFreeName base)
    (hvoid : base = "std::void" → c.listed? module "std::void" = none →
      c.listed? module "void" = none) :
    PlainBase (c.describe module) base where
  token := hfree
  scalar := by
    intro shape hshape hkind hscalar other hother
    by_contra hnot
    obtain ⟨hfree, n, kind, hbuiltin, rfl⟩ := h.builtin_of_scalar hshape hkind
    obtain rfl : kind = .void := hscalar
    rcases Primitive.void_names hdescribed hbuiltin with rfl | rfl
    · cases hother.symm.trans hshape
      exact hnot rfl
    · have hlisted := Catalog.listed_of_describe (show IsDescribed (.name "void") from
        isDescribed_of_isCanonical (by decide +kernel)) hother hnot
      rw [hvoid rfl (hfree hdescribed)] at hlisted
      cases hlisted

theorem PlainModule.plainDescription (h : PlainModule c module) (hvoid : ¬MixesVoid c module) :
    PlainDescription (c.describe module) where
  aggregate text shape hshows hkind :=
    have hplain := h.listed_of_shows hshows hkind
    ⟨hplain.aggregate, hplain.name, hplain.template⟩
  token text shape hshows hkind := (h.listed_of_shows hshows hkind).free
  parts text shape hshows ref href := by
    by_cases hkind : shape.kind = .primitive
    · obtain ⟨-, n, kind, -, rfl⟩ := h.builtin_of_scalar hshows.eq hkind
      cases href
    · have hlisted := Catalog.listed_of_describe hshows.described hshows.eq hkind
      obtain ⟨ref, base, suffixes, rfl, hu, hfree⟩ := (h.listed _ _ hlisted).parts ref href
      refine ⟨ref, base, suffixes, rfl, hu, h.plainBase hu.described hfree ?_⟩
      rintro rfl hstd
      by_contra hlists
      exact hvoid ⟨Option.isSome_iff_ne_none.mpr hlists, hstd, text, shape, ref, suffixes, hlisted,
        href, hu⟩
  void := h.describe_void

/-- A listed name is plain as a root. -/
theorem PlainModule.exists_spellsKey (h : PlainModule c module)
    (hlisted : (c.listed? module text).isSome = true) :
    ∃ key, SpellsKey (c.describe module) text key := by
  obtain ⟨shape, hshape⟩ := Option.isSome_iff_exists.mp hlisted
  have hplain := h.listed text shape hshape
  refine ⟨_, text, [], .bare hplain.described, h.plainBase hplain.described hplain.free ?_, rfl⟩
  rintro rfl hnone
  rw [hnone] at hlisted
  cases hlisted

/-! ## 3. Two orders -/

/-- **Where cycles are cut does not depend on the order of the roots.** Two resolvers of a plain
module are asked for the same listed names, each in its own order, within its own limits and over
a session of its own, which may lose look-ups and may be stopped. If both return, the same keys are
invalid in both, and the aggregates of one key have the same bases and fields, with types of the
same keys. -/
theorem resolveAll_confluent {source : Source σ} {valid : σ → Prop} (hc : c.Built)
    (hsource : AnswersFrom source c module valid)
    (hsize : ∀ {session n}, valid session → source.pointerSize session module = .ok n →
      c.pointerSize module = .ok n)
    (hm : PlainModule c module) (hvoid : ¬MixesVoid c module) {roots roots' : List String}
    (hroots : ∀ text ∈ roots, (c.listed? module text).isSome = true) (hperm : roots.Perm roots')
    {session session' : σ} (hvalid : valid session) (hvalid' : valid session')
    {limits limits' : Limits} {handles handles' : List Handle} {s s' : State σ}
    (hrun : resolveAll ⟨source, module⟩ limits (roots.map .name) (.start session) =
      .ok handles s)
    (hrun' : resolveAll ⟨source, module⟩ limits' (roots'.map .name) (.start session') =
      .ok handles' s') (key : Key) :
    isInvalidKey s key = isInvalidKey s' key ∧ partsOf? s key = partsOf? s' key := by
  have hd := hsource.describes hc
  have hp := hm.plainDescription hvoid
  obtain ⟨table, htable⟩ := Option.isSome_iff_exists.mp hm.known
  have hz : Sizes ⟨source, module⟩ valid table.pointerSize := by
    intro session n hvalid hanswer
    have hsame := hsize hvalid hanswer
    rw [Catalog.pointerSize, Catalog.table, htable] at hsame
    exact (Except.ok.inj hsame).symm
  have hr := resolved_resolveAll hp hd hz hvalid
    (fun text hmem => hm.exists_spellsKey (hroots text hmem)) hrun
  have hr' := resolved_resolveAll hp hd hz hvalid'
    (fun text hmem => hm.exists_spellsKey (hroots text (hperm.mem_iff.mpr hmem))) hrun'
  exact (hr.perm hperm).agree hp hr' key

/-- A struct of one byte with fields of these types, none of which has a place of its own. -/
def structOf (name : String) (types : List String) : Shape :=
  Shape.ofAggregate name (some 1) (types.map fun t => ⟨"part", .name t, 0, none, none, false⟩) []
    false

/-- The tables of these structs. -/
def structTables (entries : List (String × List String)) : Catalog :=
  entries.foldl (fun c entry => c.add "m" (structOf entry.1 entry.2) none) {}

theorem built_structTables (entries : List (String × List String)) :
    (structTables entries).Built := by
  have h (c : Catalog) (hc : c.Built) : (entries.foldl
      (fun c entry => c.add "m" (structOf entry.1 entry.2) none) c).Built := by
    induction entries generalizing c with
    | nil => exact hc
    | cons entry rest ih => exact ih _ (hc.add "m" _ none)
  exact h {} .empty

/-- A check that a struct is plain and its parts have canonical names. -/
def isPlainEntry (entry : String × Shape) : Bool :=
  entry.2.isAggregate && entry.2.name == entry.1 && isCanonical entry.1 &&
    ((TypeName.parsePlain? entry.1).filter TypeName.isTemplate).isNone &&
    decide (IsFreeName entry.1) && entry.2.partRefs.all fun
      | .name text => isCanonical text && decide (IsFreeName text)
      | .id _ => false

theorem plainShape_of_isPlainEntry (h : isPlainEntry (text, shape) = true) :
    PlainShape text shape := by
  simp only [isPlainEntry, Bool.and_eq_true, beq_iff_eq, Option.isNone_iff_eq_none,
    decide_eq_true_eq, List.all_eq_true] at h
  obtain ⟨⟨⟨⟨⟨hagg, hname⟩, hcanonical⟩, htemplate⟩, hfree⟩, hparts⟩ := h
  refine ⟨hagg, hname, isDescribed_of_isCanonical hcanonical, htemplate, hfree, ?_⟩
  intro ref href
  have hpart := hparts ref href
  cases ref with
  | id n => cases hpart
  | name text =>
    obtain ⟨htext, hfree⟩ := Bool.and_eq_true_iff.mp hpart
    exact ⟨text, text, [], rfl, .bare (isDescribed_of_isCanonical htext), of_decide_eq_true hfree⟩

/-- A module all of whose entries pass the check is plain. -/
theorem plainModule_of_all {table : ModuleTable} (htable : c.tables.get? module = some table)
    (h : table.byName.all isPlainEntry = true) : PlainModule c module where
  known := by rw [htable]; rfl
  listed text shape hlisted := by
    rw [Catalog.listed?, htable] at hlisted
    exact plainShape_of_isPlainEntry (List.all_eq_true.mp h _ (Assoc.mem_of_get? hlisted))

/-- Two cycles through `A`: one with `B`, one with `C`. -/
def twoCycles : Catalog := structTables [("A", ["C", "B"]), ("B", ["A"]), ("C", ["A"])]

/-- Entered at `A` and entered at `B`, the cycle through `C` is the one that is cut. -/
theorem resolveAll_confluent_twoCycles : ∃ handles s handles' s',
    resolveAll ⟨Session.source {}, "m"⟩ ⟨8, 8⟩ (["A", "B", "C"].map .name)
        (.start ⟨twoCycles, false⟩) = .ok handles s ∧
      resolveAll ⟨Session.source {}, "m"⟩ ⟨8, 8⟩ (["B", "C", "A"].map .name)
        (.start ⟨twoCycles, false⟩) = .ok handles' s' ∧
      isInvalidKey s (.named "C") = true ∧ isInvalidKey s (.named "B") = false ∧
      ∀ key, isInvalidKey s key = isInvalidKey s' key ∧ partsOf? s key = partsOf? s' key := by
  have hfirst : returns
      (resolveAll ⟨Session.source {}, "m"⟩ ⟨8, 8⟩ (["A", "B", "C"].map .name))
      (.start ⟨twoCycles, false⟩) (fun _ s =>
        isInvalidKey s (.named "C") && !isInvalidKey s (.named "B")) = true := by
    decide +kernel
  have hsecond : returns
      (resolveAll ⟨Session.source {}, "m"⟩ ⟨8, 8⟩ (["B", "C", "A"].map .name))
      (.start ⟨twoCycles, false⟩) (fun _ _ => true) = true := by
    decide +kernel
  obtain ⟨handles, s, hrun, hcheck⟩ := exists_of_returns hfirst
  obtain ⟨handles', s', hrun', -⟩ := exists_of_returns hsecond
  obtain ⟨hinvalid, hvalid⟩ := Bool.and_eq_true_iff.mp hcheck
  have hplain : ((twoCycles.tables.get? "m").any fun table => table.byName.all isPlainEntry) =
      true := by
    decide +kernel
  obtain ⟨table, htable, hall⟩ := (Option.any_eq_true _ _).mp hplain
  have hvoid : ¬MixesVoid twoCycles "m" := by
    rintro ⟨hlists, -⟩
    have hnone : twoCycles.listed? "m" "void" = none := by decide +kernel
    rw [hnone] at hlists
    cases hlists
  have hlisted : ∀ text ∈ ["A", "B", "C"], (twoCycles.listed? "m" text).isSome = true := by
    decide +kernel
  refine ⟨handles, s, handles', s', hrun, hrun', hinvalid, by simpa using hvalid, ?_⟩
  refine resolveAll_confluent (built_structTables _) (answersFrom_session {} twoCycles "m") ?_
    (plainModule_of_all htable hall) hvoid hlisted (by decide) rfl rfl hrun hrun'
  intro session n hvalid hanswer
  change session.catalog.pointerSize "m" = .ok n at hanswer
  rwa [Catalog.pointerSize, Catalog.table, hvalid] at hanswer

/-- A struct named `void` that embeds what embeds it, and a field of the built-in type. -/
def twoVoids : Catalog :=
  structTables [("A", ["std::void"]), ("B", ["void"]), ("void", ["B"])]

/-- **Where a struct is named `void`, the order of the roots may show**: entered at `A`, the scalar
takes the key and nothing is invalid; entered at `B`, the struct takes it and closes a cycle. -/
theorem exists_unconfluent : ∃ handles s handles' s',
    PlainModule twoVoids "m" ∧
      resolveAll ⟨Session.source {}, "m"⟩ ⟨8, 8⟩ (["A", "B"].map .name)
        (.start ⟨twoVoids, false⟩) = .ok handles s ∧
      resolveAll ⟨Session.source {}, "m"⟩ ⟨8, 8⟩ (["B", "A"].map .name)
        (.start ⟨twoVoids, false⟩) = .ok handles' s' ∧
      isInvalidKey s (.named "B") = false ∧ isInvalidKey s' (.named "B") = true := by
  have hfirst : returns
      (resolveAll ⟨Session.source {}, "m"⟩ ⟨8, 8⟩ (["A", "B"].map .name))
      (.start ⟨twoVoids, false⟩) (fun _ s => !isInvalidKey s (.named "B")) = true := by
    decide +kernel
  have hsecond : returns
      (resolveAll ⟨Session.source {}, "m"⟩ ⟨8, 8⟩ (["B", "A"].map .name))
      (.start ⟨twoVoids, false⟩) (fun _ s => isInvalidKey s (.named "B")) = true := by
    decide +kernel
  obtain ⟨handles, s, hrun, hvalid⟩ := exists_of_returns hfirst
  obtain ⟨handles', s', hrun', hinvalid⟩ := exists_of_returns hsecond
  have hplain : ((twoVoids.tables.get? "m").any fun table => table.byName.all isPlainEntry) =
      true := by
    decide +kernel
  obtain ⟨table, htable, hall⟩ := (Option.any_eq_true _ _).mp hplain
  exact ⟨handles, s, handles', s', plainModule_of_all htable hall, hrun, hrun',
    by simpa using hvalid, hinvalid⟩

end Resolver

end NativeTypes
