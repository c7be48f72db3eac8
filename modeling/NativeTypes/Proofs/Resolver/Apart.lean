/-
NativeTypes.Proofs.Resolver.Apart — structs and unions of different names are
different instances.

A name without type arguments determines its key, and the key determines the
name up to an empty argument list: `Foo<>` has the key of `Foo`
(`eq_or_addsEmptyList`). What was declared by such a name is found under its
key, and an instance is found under one key only, unless a typedef goes by the
name of a struct that it is not a typedef of (`Keyed.own`).

That different names have different keys is a matter of spelling alone, and no
state is needed for it (`ToldApart.ne_key`). That different keys have different
instances is a matter of the registry: an instance has its primary key and the
names of typedefs, and a name that is told apart from typedefs can only be the
primary one (`Keyed.ne`). The two halves meet in the theorem on requests, where
each name is declared at some time, in either order and with any requests in
between.
-/
import NativeTypes.Proofs.Resolver.Keying
import NativeTypes.Proofs.Resolver.Returns

namespace NativeTypes

/-! ## 1. Names and keys -/

/-- Numbers are read off the keys that they became. -/
theorem eq_of_fixedArguments? {as bs : List Argument} {keys : List KeyArgument}
    (ha : fixedArguments? as = some keys) (hb : fixedArguments? bs = some keys) : as = bs := by
  induction as generalizing bs keys with
  | nil =>
    cases ha
    cases bs with
    | nil => rfl
    | cons b rest =>
      cases b with
      | number n =>
        obtain ⟨_, -, heq⟩ := Option.map_eq_some_iff.mp hb
        cases heq
      | type t => cases hb
  | cons a rest ih =>
    cases a with
    | type t => cases ha
    | number n =>
      obtain ⟨keys', hrest, rfl⟩ := Option.map_eq_some_iff.mp ha
      cases bs with
      | nil => cases hb
      | cons b bs =>
        cases b with
        | type t => cases hb
        | number m =>
          obtain ⟨_, hrest', heq⟩ := Option.map_eq_some_iff.mp hb
          cases heq
          rw [ih hrest hrest']

namespace Resolver

variable {σ : Type} {task : Task σ} {describe : Description} {valid : σ → Prop} {c : Catalog}
  {module text text' base base' : String} {key key' : Key} {s : State σ}

/-- The text spells the canonical name `base`, by which a struct or union is described that has
no type arguments, and this is its key. -/
structure NamesAggregate (describe : Description) (text base : String) (key : Key) : Prop where
  spells : Unwraps text base []
  keyed : ∃ shape, describe (.name base) = some shape ∧ shape.isAggregate = true ∧
    shape.fixedKey? = some key

theorem NamesAggregate.spellsAggregate (h : NamesAggregate describe text base key) :
    SpellsAggregate describe text key := by
  obtain ⟨shape, hshape⟩ := h.keyed
  exact ⟨base, shape, h.spells, hshape⟩

/-- The name is the one of the key, with an empty argument list behind it. -/
def AddsEmptyList (key : Key) (base : String) : Prop :=
  ∃ name, key = .named name ∧ base = name ++ "<>"

/-- What the key of a struct or union tells about its name: the shape may have a name of its own
that is no type name. -/
inductive KeyTells (base : String) : Key → Prop
  | raw {name : String} : TypeName.nameKey? name = some base → TypeName.parsePlain? name = none →
      KeyTells base (.named name)
  | plain : KeyTells base (.named base)
  | template {t : TypeName} {keys : List KeyArgument} : t.isTemplate = true → t.suffixes = [] →
      t.format = base → fixedArguments? t.arguments = some keys →
      KeyTells base (.mk t.baseName keys)

/-- A key tells the name that it was made of. -/
theorem NamesAggregate.keyTells (hc : c.Built)
    (h : NamesAggregate (c.describe module) text base key) : KeyTells base key := by
  obtain ⟨shape, hshape, hkind, hkey⟩ := h.keyed
  have hnot : shape.kind ≠ .primitive := by
    intro hprimitive
    simp [Shape.isAggregate, hprimitive] at hkind
  obtain ⟨table, htable, hlisted⟩ := Option.bind_eq_some_iff.mp
    (Catalog.listed_of_describe h.spells.described hshape hnot)
  have hnamed := (hc.keyed htable).key base shape hlisted
  rw [ModuleTable.keyOf?] at hnamed
  split at hnamed
  · cases hnamed
  · rename_i hname
    have htitle : shape.title = shape.name := by simp [Shape.title, hname]
    rw [Shape.fixedKey?, htitle] at hkey
    cases hparse : TypeName.parsePlain? shape.name with
    | none =>
      simp only [hparse, Option.filter_none, keyOfName] at hkey
      cases hkey
      exact .raw hnamed hparse
    | some t =>
      obtain ⟨hok, hsuffixes⟩ := Option.filter_eq_some_iff.mp hparse
      have hformat : t.format = base := by
        simp only [TypeName.nameKey?, parse_of_parse? hok, TypeName.written?,
          Option.ite_none_right_eq_some,
          Option.some.injEq] at hnamed
        exact hnamed.2
      cases htemplate : t.isTemplate with
      | false =>
        simp only [hparse, Option.filter_some, htemplate, keyOfName] at hkey
        cases hkey
        exact hformat ▸ .plain
      | true =>
        simp only [hparse, Option.filter_some, htemplate, if_true] at hkey
        obtain ⟨keys, hkeys, rfl⟩ := Option.map_eq_some_iff.mp hkey
        exact .template htemplate (by simpa using hsuffixes) hformat hkeys

/-- A canonical name is a type name without suffixes. -/
theorem parsePlain?_of_described (h : IsDescribed (.name base)) :
    TypeName.parsePlain? base ≠ none := by
  obtain ⟨t, hparse, hsuffixes, -⟩ := h
  simp [TypeName.parsePlain?, TypeName.parse?, hparse, hsuffixes, Except.toOption]

theorem KeyTells.eq_or_addsEmptyList (h : KeyTells base key) (h' : KeyTells base' key)
    (hbase : IsDescribed (.name base)) (hbase' : IsDescribed (.name base')) :
    base = base' ∨ AddsEmptyList key base ∨ AddsEmptyList key base' := by
  -- a template whose key is that of a plain name has no arguments
  have hempty {t : TypeName} {keys : List KeyArgument} {name base : String}
      (htemplate : t.isTemplate = true) (hsuffixes : t.suffixes = []) (hformat : t.format = base)
      (hfixed : fixedArguments? t.arguments = some keys)
      (hkey : Key.named name = .mk t.baseName keys) : AddsEmptyList (.named name) base := by
    cases hkey
    have harguments := eq_of_fixedArguments? hfixed (show fixedArguments? [] = some [] from rfl)
    refine ⟨_, rfl, ?_⟩
    rw [← hformat, TypeName.format_of_isTemplate htemplate hsuffixes, harguments]
    rfl
  cases h with
  | raw hname hnone =>
    generalize hk : Key.named _ = key at h'
    cases h' with
    | raw hname' =>
      cases hk
      exact .inl (Option.some.inj (hname.symm.trans hname'))
    | plain =>
      cases hk
      exact absurd hnone (parsePlain?_of_described hbase')
    | template htemplate hsuffixes hformat hfixed =>
      exact .inr (.inr (hk ▸ hempty htemplate hsuffixes hformat hfixed hk))
  | plain =>
    generalize hk : Key.named _ = key at h'
    cases h' with
    | raw hname' hnone =>
      cases hk
      exact absurd hnone (parsePlain?_of_described hbase)
    | plain =>
      cases hk
      exact .inl rfl
    | template htemplate hsuffixes hformat hfixed =>
      exact .inr (.inr (hk ▸ hempty htemplate hsuffixes hformat hfixed hk))
  | @template t keys htemplate hsuffixes hformat hfixed =>
    generalize hk : Key.mk t.baseName keys = key at h'
    cases h' with
    | raw => exact .inr (.inl (hempty htemplate hsuffixes hformat hfixed hk.symm))
    | plain => exact .inr (.inl (hempty htemplate hsuffixes hformat hfixed hk.symm))
    | template htemplate' hsuffixes' hformat' hfixed' =>
      obtain ⟨hstem, rfl⟩ := Key.mk.inj hk
      left
      rw [← hformat, ← hformat', TypeName.format_of_isTemplate htemplate hsuffixes,
        TypeName.format_of_isTemplate htemplate' hsuffixes', hstem,
        eq_of_fixedArguments? hfixed hfixed']

/-! ## 2. Instances -/

/-- What two names of structs and unions need to be kept apart: they are different names, neither
is the other one with an empty argument list, and no typedef of another type goes by the key of
one of them. -/
structure ToldApart (describe : Description) (text base : String) (key : Key)
    (text' base' : String) (key' : Key) : Prop where
  first : NamesAggregate describe text base key
  second : NamesAggregate describe text' base' key'
  ne : base ≠ base'
  lists : ¬AddsEmptyList key' base ∧ ¬AddsEmptyList key base'
  aliases : ¬IsAlias describe key ∧ ¬IsAlias describe key'

theorem ToldApart.ne_key (hc : c.Built)
    (h : ToldApart (c.describe module) text base key text' base' key') : key ≠ key' := by
  rintro rfl
  rcases (h.first.keyTells hc).eq_or_addsEmptyList (h.second.keyTells hc) h.first.spells.described
    h.second.spells.described with heq | hlist | hlist
  · exact h.ne heq
  · exact h.lists.1 hlist
  · exact h.lists.2 hlist

/-- An instance is found under one key only. -/
theorem Keyed.ne (hs : Keyed describe valid s) {h h' : Handle}
    (hkey : s.registry.get? key = some h) (hkey' : s.registry.get? key' = some h')
    (halias : ¬IsAlias describe key) (halias' : ¬IsAlias describe key') (hne : key ≠ key') :
    h ≠ h' := by
  rintro rfl
  have hprimary := (hs.own key h hkey).resolve_right halias
  have hprimary' := (hs.own key' h hkey').resolve_right halias'
  exact hne (Option.some.inj (hprimary.symm.trans hprimary'))

/-- After any requests, whether they returned or stopped, names that are told apart stand for
different instances. -/
theorem Attempted.ne_of_toldApart (hc : c.Built) (hd : Describes task (c.describe module) valid)
    (h : ToldApart (c.describe module) text base key text' base' key') (hs : Attempted task valid s)
    {x x' : Handle} (hx : s.declared.get? (.name text) = some x)
    (hx' : s.declared.get? (.name text') = some x') : x ≠ x' := by
  have hkeyed := hs.keyed hd
  exact hkeyed.ne (hkeyed.found text key x hx h.first.spellsAggregate)
    (hkeyed.found text' key' x' hx' h.second.spellsAggregate) h.aliases.1 h.aliases.2 (h.ne_key hc)

/-! ## 3. Requests -/

/-- The chain of a spelling ends with that of what is spelled. -/
theorem Unwraps.ends {suffixes : List Suffix} (h : Unwraps text base suffixes)
    (hbase : Ends describe [] (.name base)) : Ends describe [] (.name text) := by
  induction h with
  | bare => exact hbase
  | @wrapped text base t suffixes hnot hparse _ ih =>
    refine Ends.of_calls_to ?_ (ih hbase)
    simp only [calls, hparse]
    split
    · rfl
    · rename_i hsuffixes
      have hnil : t.suffixes = [] := by simpa using hsuffixes
      have hself : t.withoutSuffixes = t := by
        cases t
        obtain rfl : _ = [] := hnil
        rfl
      rw [if_pos fun hformat => hnot ⟨t, hparse, hnil, hformat⟩, hself]

theorem argumentCalls_of_fixed {arguments : List Argument} {keys : List KeyArgument}
    (h : fixedArguments? arguments = some keys) : argumentCalls arguments = [] := by
  induction arguments generalizing keys with
  | nil => rfl
  | cons a rest ih =>
    cases a with
    | type t => cases h
    | number n =>
      obtain ⟨_, hrest, -⟩ := Option.map_eq_some_iff.mp h
      exact ih hrest

/-- A struct or union without type arguments asks for nothing. -/
theorem NamesAggregate.ends (h : NamesAggregate describe text base key) :
    Ends describe [] (.name text) := by
  refine h.spells.ends (.of_calls_nil ?_)
  obtain ⟨shape, hshape, hkind, hkey⟩ := h.keyed
  rw [calls_of_described h.spells.described, hshape]
  have harguments : argumentCalls (templateArguments shape.title) = [] := by
    unfold templateArguments
    rw [Shape.fixedKey?] at hkey
    split at hkey
    · rename_i hnone
      rw [hnone]
      rfl
    · rename_i t ht
      rw [ht]
      obtain ⟨keys, hfixed, -⟩ := Option.map_eq_some_iff.mp hkey
      exact argumentCalls_of_fixed hfixed
  rcases Bool.or_eq_true_iff.mp hkind with hstruct | hunion
  · simpa [Shape.calls, of_decide_eq_true hstruct] using harguments
  · simpa [Shape.calls, of_decide_eq_true hunion] using harguments

theorem ToldApart.symm (h : ToldApart describe text base key text' base' key') :
    ToldApart describe text' base' key' text base key :=
  ⟨h.second, h.first, h.ne.symm, h.lists.symm, h.aliases.symm⟩

variable {source : Source σ}

/-- Two requests, one after the other. -/
def resolveBoth (task : Task σ) (limits : Limits) (text text' : String) :
    Run σ (Handle × Handle) := do
  let first ← resolve task limits (.name text)
  let second ← resolve task limits (.name text')
  return (first, second)

/-- Where the chains of references of parts end, a request for a name whose chain ends returns
after any requests that returned, or its stop is excused. -/
theorem exists_ensures_resolve (hc : c.Built) (hsource : AnswersFrom source c module valid)
    (hparts : ∀ r ∈ c.partRefs module, Ends (c.describe module) [] r)
    (hends : Ends (c.describe module) [] (.name text)) :
    ∃ n, ∀ session s, valid session →
      Relation.ReflTransGen (Returned ⟨source, module⟩) (State.start session) s →
      ∀ limits : Limits, n ≤ limits.depth → n ≤ limits.total →
        Ensures (resolve ⟨source, module⟩ limits (.name text)) s
          (fun x t => t.declared.get? (.name text) = some x ∧ Returned ⟨source, module⟩ s t)
          (Pardoned ⟨source, module⟩ (c.describe module) valid
            (.name text :: c.partRefs module)) := by
  have hd := hsource.describes hc
  obtain ⟨width, hb⟩ := exists_bounded hd hparts
  obtain ⟨n, hn⟩ := hends.within hd
  refine ⟨(c.partRefs module).length * width + width + n + 1, ?_⟩
  intro session s hvalid hs limits hdepth htotal
  obtain ⟨htruth, hplaced⟩ := (asking_placed hd).requests hd (requests_of_returned hs)
    (settled_start module session).toWellFormed
    ⟨⟨hvalid, fun _ _ h => by cases h⟩, fun _ _ h => by cases h⟩
  have hreturns : Ensures (resolve ⟨source, module⟩ limits (.name text)) s
      (fun x t => t.declared.get? (.name text) = some x ∧ x < t.graph.count)
      (Pardoned ⟨source, module⟩ (c.describe module) valid (.name text :: c.partRefs module)) :=
    returns_resolve hb hn (reached_of_returned hs) htruth hplaced (by omega) (by omega)
  unfold Ensures at hreturns ⊢
  cases hr : resolve ⟨source, module⟩ limits (.name text) s with
  | ok x t =>
    rw [hr] at hreturns
    exact ⟨hreturns.1, _, _, _, hr⟩
  | error e t =>
    rw [hr] at hreturns
    exact hreturns

/-- There are limits that suffice for both requests. -/
theorem exists_ensures_resolveBoth (hc : c.Built) (hsource : AnswersFrom source c module valid)
    (h : ToldApart (c.describe module) text base key text' base' key')
    (hparts : ∀ r ∈ c.partRefs module, Ends (c.describe module) [] r) :
    ∃ n, ∀ session s, valid session →
      Relation.ReflTransGen (Returned ⟨source, module⟩) (State.start session) s →
      ∀ limits : Limits, n ≤ limits.depth → n ≤ limits.total →
        Ensures (resolveBoth ⟨source, module⟩ limits text text') s
          (fun roots _ => roots.1 ≠ roots.2)
          (Pardoned ⟨source, module⟩ (c.describe module) valid
            (.name text :: .name text' :: c.partRefs module)) := by
  obtain ⟨n, hn⟩ := exists_ensures_resolve hc hsource hparts h.first.ends
  obtain ⟨n', hn'⟩ := exists_ensures_resolve hc hsource hparts h.second.ends
  refine ⟨n + n', fun session s hvalid hs limits hdepth htotal => ?_⟩
  refine ensures_bind (Ensures.mono (hn session s hvalid hs limits (by omega) (by omega))
    (fun _ _ h => h) fun _ _ he => he.mono (by simp)) ?_
  rintro x t ⟨hx, ht⟩
  refine ensures_bind (Ensures.mono (hn' session t hvalid (hs.tail ht) limits (by omega)
    (by omega)) (fun _ _ h => h) fun _ _ he => he.mono (by simp)) ?_
  rintro x' u ⟨hx', hu⟩
  have htail := (hs.tail ht).tail hu
  -- the first one stays declared
  have hkept := (requests_of_returned (.single hu)).declared
    (reached_of_returned (hs.tail ht)).settled.toWellFormed hx
  exact Attempted.ne_of_toldApart hc (hsource.describes hc) h
    ⟨session, hvalid, requests_of_returned htail⟩ hkept hx'

/-- **Different structs and unions are never merged.** Names that are told apart stand for
different instances, whatever was requested before and however that ended. Where the chains of
references of bases and fields end, both can be requested at any time and in any order: there are
limits that suffice, and then the requests give different instances, or their stop is excused. -/
theorem resolve_apart (hc : c.Built) (hsource : AnswersFrom source c module valid)
    (h : ToldApart (c.describe module) text base key text' base' key') :
    (∀ s, Attempted ⟨source, module⟩ valid s → ∀ x x', s.declared.get? (.name text) = some x →
      s.declared.get? (.name text') = some x' → x ≠ x') ∧
    ((∀ r ∈ c.partRefs module, Ends (c.describe module) [] r) →
      ∃ n, ∀ session s, valid session →
        Relation.ReflTransGen (Returned ⟨source, module⟩) (State.start session) s →
        ∀ limits : Limits, n ≤ limits.depth → n ≤ limits.total →
          Ensures (resolveBoth ⟨source, module⟩ limits text text') s
            (fun roots _ => roots.1 ≠ roots.2)
            (Pardoned ⟨source, module⟩ (c.describe module) valid
              (.name text :: .name text' :: c.partRefs module)) ∧
          Ensures (resolveBoth ⟨source, module⟩ limits text' text) s
            (fun roots _ => roots.1 ≠ roots.2)
            (Pardoned ⟨source, module⟩ (c.describe module) valid
              (.name text' :: .name text :: c.partRefs module))) := by
  refine ⟨fun s hs x x' hx hx' => hs.ne_of_toldApart hc (hsource.describes hc) h hx hx',
    fun hparts => ?_⟩
  obtain ⟨n, hn⟩ := exists_ensures_resolveBoth hc hsource h hparts
  obtain ⟨n', hn'⟩ := exists_ensures_resolveBoth hc hsource h.symm hparts
  refine ⟨n + n', fun session s hvalid hs limits hdepth htotal => ⟨?_, ?_⟩⟩
  · exact hn session s hvalid hs limits (by omega) (by omega)
  · exact hn' session s hvalid hs limits (by omega) (by omega)

/-- The tables of a struct, of a template of the same name with a number, and of a typedef of the
struct by its own name. -/
def fooTables : Catalog :=
  ((Catalog.add {} "m" (Shape.ofAggregate "Foo" (some 4) [] [] false) none).add "m"
    (Shape.ofAggregate "Foo<3>" (some 8) [] [] false) none).add "m"
    (Shape.ofAlias "Foo" (.name "Foo")) (some 7)

theorem built_fooTables : fooTables.Built :=
  ((Catalog.Built.empty.add "m" _ none).add "m" _ none).add "m" _ (some 7)

theorem toldApart_foo : ToldApart (fooTables.describe "m") "Foo" "Foo" (.named "Foo")
    "Foo<3>" "Foo<3>" (.mk "Foo" [.number 3]) := by
  have hfoo : IsDescribed (.name "Foo") := isDescribed_of_isCanonical (by decide +kernel)
  have hnumbered : IsDescribed (.name "Foo<3>") := isDescribed_of_isCanonical (by decide +kernel)
  have hfirst : NamesAggregate (fooTables.describe "m") "Foo" "Foo" (.named "Foo") :=
    ⟨.bare hfoo, Shape.ofAggregate "Foo" (some 4) [] [] false, by decide +kernel, rfl,
      by decide +kernel⟩
  have hsecond : NamesAggregate (fooTables.describe "m") "Foo<3>" "Foo<3>"
      (.mk "Foo" [.number 3]) :=
    ⟨.bare hnumbered, Shape.ofAggregate "Foo<3>" (some 8) [] [] false, by decide +kernel, rfl,
      by decide +kernel⟩
  -- the only typedef is that of the struct itself
  have halias : ∀ key, IsAlias (fooTables.describe "m") key →
      key = .named "Foo" ∧ ¬SpellsAggregate (fooTables.describe "m") "Foo" key := by
    rintro key ⟨ref, shape, target, hshape, hkind, htarget, rfl, hnot⟩
    obtain ⟨table, htable, hlookup⟩ := Catalog.lookup_of_describe hshape
    have hmem := Catalog.mem_shapes_of_lookup hlookup (by simp [hkind])
    have hall : ∀ table, fooTables.tables.get? "m" = some table → ∀ shape ∈ table.shapes,
        shape.kind = .typedef → shape.name = "Foo" ∧ shape.target = some (.name "Foo") := by
      rintro table ⟨⟩
      decide +kernel
    obtain ⟨hname, hself⟩ := hall table htable shape hmem hkind
    refine ⟨?_, hnot "Foo" (Option.some.inj (htarget.symm.trans hself))⟩
    rw [hname]
    decide +kernel
  refine ⟨hfirst, hsecond, by decide, ⟨?_, ?_⟩, fun h => (halias _ h).2 hfirst.spellsAggregate,
    fun h => ?_⟩
  · rintro ⟨name, hkey, -⟩
    cases hkey
  · rintro ⟨name, hkey, hlist⟩
    cases hkey
    revert hlist
    decide
  · cases (halias _ h).1

/-- In this module both can be requested, in any order. -/
theorem resolve_apart_foo : ∃ n, ∀ limits : Limits, n ≤ limits.depth → n ≤ limits.total →
    Ensures (resolveBoth ⟨Session.source {}, "m"⟩ limits "Foo" "Foo<3>")
      (State.start ⟨fooTables, false⟩) (fun roots _ => roots.1 ≠ roots.2)
      (Pardoned ⟨Session.source {}, "m"⟩ (fooTables.describe "m")
        (fun t => t.catalog.tables = fooTables.tables) [.name "Foo", .name "Foo<3>"]) ∧
    Ensures (resolveBoth ⟨Session.source {}, "m"⟩ limits "Foo<3>" "Foo")
      (State.start ⟨fooTables, false⟩) (fun roots _ => roots.1 ≠ roots.2)
      (Pardoned ⟨Session.source {}, "m"⟩ (fooTables.describe "m")
        (fun t => t.catalog.tables = fooTables.tables) [.name "Foo<3>", .name "Foo"]) := by
  have hrefs : fooTables.partRefs "m" = [] := by decide +kernel
  obtain ⟨-, hends⟩ := resolve_apart built_fooTables (answersFrom_session {} fooTables "m")
    toldApart_foo
  obtain ⟨n, hn⟩ := hends (by simp [hrefs])
  rw [hrefs] at hn
  exact ⟨n, hn ⟨fooTables, false⟩ _ rfl .refl⟩

/-- The tables of two structs, one with an empty argument list. -/
def listTables : Catalog :=
  (Catalog.add {} "m" (Shape.ofAggregate "Foo" (some 4) [] [] false) none).add "m"
    (Shape.ofAggregate "Foo<>" (some 8) [] [] false) none

/-- The tables of two structs, and of a typedef of the first one by the name of the second. -/
def tagTables : Catalog :=
  ((Catalog.add {} "m" (Shape.ofAggregate "A" (some 4) [] [] false) none).add "m"
    (Shape.ofAggregate "B" (some 8) [] [] false) none).add "m"
    (Shape.ofAlias "B" (.name "A")) (some 7)

/-- **Names that are not told apart are merged**: a name with an empty argument list has the key
of the name without it, and a typedef takes the name of another struct if it is requested first. -/
theorem exists_merged :
    (listTables.describe "m" (.name "Foo") = some (Shape.ofAggregate "Foo" (some 4) [] [] false) ∧
      listTables.describe "m" (.name "Foo<>") =
        some (Shape.ofAggregate "Foo<>" (some 8) [] [] false) ∧
      ∃ h s, resolveBoth ⟨Session.source {}, "m"⟩ Limits.usual "Foo" "Foo<>"
        (State.start ⟨listTables, false⟩) = .ok (h, h) s) ∧
    (tagTables.describe "m" (.name "A") = some (Shape.ofAggregate "A" (some 4) [] [] false) ∧
      tagTables.describe "m" (.name "B") = some (Shape.ofAggregate "B" (some 8) [] [] false) ∧
      ∃ x t h s, resolve ⟨Session.source {}, "m"⟩ Limits.usual (.id 7)
          (State.start ⟨tagTables, false⟩) = .ok x t ∧
        resolveBoth ⟨Session.source {}, "m"⟩ Limits.usual "A" "B" t = .ok (h, h) s) := by
  have hlist : returns (resolveBoth ⟨Session.source {}, "m"⟩ Limits.usual "Foo" "Foo<>")
      (State.start ⟨listTables, false⟩) (fun roots _ => decide (roots.1 = roots.2)) = true := by
    decide +kernel
  have htag : returns (resolve ⟨Session.source {}, "m"⟩ Limits.usual (.id 7))
      (State.start ⟨tagTables, false⟩) (fun _ t =>
        returns (resolveBoth ⟨Session.source {}, "m"⟩ Limits.usual "A" "B") t
          (fun roots _ => decide (roots.1 = roots.2))) = true := by
    decide +kernel
  refine ⟨⟨by decide +kernel, by decide +kernel, ?_⟩, by decide +kernel, by decide +kernel, ?_⟩
  · obtain ⟨⟨h, h'⟩, s, hrun, hsame⟩ := exists_of_returns hlist
    obtain rfl : h = h' := of_decide_eq_true hsame
    exact ⟨h, s, hrun⟩
  · obtain ⟨x, t, hfirst, hrest⟩ := exists_of_returns htag
    obtain ⟨⟨h, h'⟩, s, hrun, hsame⟩ := exists_of_returns hrest
    obtain rfl : h = h' := of_decide_eq_true hsame
    exact ⟨x, t, h, s, hfirst, hrun⟩

end Resolver

end NativeTypes
