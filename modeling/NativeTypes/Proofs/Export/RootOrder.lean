/-
NativeTypes.Proofs.Export.RootOrder — where the order of the roots does not
show.

Functions of one signature show in which order the roots came. In a plain
module they do not: its roots, whatever their order, lead to the same
registered types under other handles, although cycles are entered elsewhere and
each root is resolved before the next one is declared. Such keys have texts of
their own (`legible_plainKey`). So the source and the declarations are the same
(`exportModule_perm`), and what is resolved can be exported
(`exists_exportModule`).

What is known of resolving is known of one request for all roots at once. An
export makes a request for each of them, so aggregates are finished before the
next root is declared, and the order of everything is another one. But the
invariants of a request (`Tracked`) do not ask for it to be the only one: they
are carried from root to root, and at the end the state is as that of one
request would be (`resolved_resolveRoots`). Then two such states agree up to
handles, and naming, ordering and writing do not see handles.
-/
import NativeTypes.Proofs.Export.Roots
import NativeTypes.Proofs.Naming.Allocation
import NativeTypes.Proofs.Resolver.Confluent
import NativeTypes.Proofs.Resolver.Counterparts
import NativeTypes.Proofs.Resolver.Readable

namespace NativeTypes

open Resolver

variable {σ : Type} {describe : Description} {valid : σ → Prop} {size : Int}
  {roots : List String} {s s' : Resolver.State σ} {key : Key}

/-! ## 1. Texts of keys -/

namespace Resolver

/-- The key of a scalar, of a type by its canonical name or of what suffixes make of one. -/
def PlainKey (describe : Description) (key : Key) : Prop :=
  ∃ base suffixes, IsDescribed (.name base) ∧ key = (keyOfBase describe base).wrap suffixes

theorem isNeat_keyOfBase {base : String} (h : IsDescribed (.name base)) :
    Text.IsNeat (keyOfBase describe base).name.toList := by
  have hnamed : Text.IsNeat (Key.named base).name.toList := by
    obtain ⟨t, hparse, -, hformat⟩ := h
    exact hformat ▸ TypeName.isNeat_format hparse
  unfold keyOfBase
  split
  · split
    · exact isNeat_token _
    · exact hnamed
  · exact hnamed

/-- The names of pointers and arrays are fixed words and digits. -/
theorem isNeat_suffix (key : Key) (suffix : Suffix) :
    Text.IsNeat (suffix.key key).name.toList := by
  cases suffix with
  | pointer => exact isNeat_pointer key
  | reference => exact isNeat_pointer key
  | array length => exact isNeat_array key length

theorem PlainKey.cases (h : PlainKey describe key) :
    (key.arguments = [] ∧ Text.IsNeat key.name.toList) ∨
      ∃ inner suffix, PlainKey describe inner ∧ key = Suffix.key inner suffix := by
  obtain ⟨base, suffixes, hbase, rfl⟩ := h
  rcases List.eq_nil_or_concat suffixes with rfl | ⟨first, last, rfl⟩
  · exact .inl ⟨arguments_keyOfBase, isNeat_keyOfBase hbase⟩
  · rw [List.concat_eq_append, Key.wrap_append_singleton]
    exact .inr ⟨_, last, ⟨base, first, hbase, rfl⟩, rfl⟩

/-- **Plain keys are known by their texts.** -/
theorem legible_plainKey : Legible (PlainKey describe) where
  neat := fun h => by
    rcases h.cases with ⟨-, hneat⟩ | ⟨inner, suffix, -, heq⟩
    · exact hneat
    · have hneat := isNeat_suffix inner suffix
      rwa [← heq] at hneat
  closed := fun {name arguments} h k hk => by
    rcases h.cases with ⟨hnil, -⟩ | ⟨inner, suffix, hinner, heq⟩
    · rw [show arguments = [] from hnil] at hk
      cases hk
    · have harguments : arguments = [.key inner] :=
        (congrArg Key.arguments heq).trans (Key.arguments_suffix inner suffix)
      rw [harguments, List.mem_singleton] at hk
      cases hk
      exact hinner
  numbered := fun {name arguments} h hne hall => by
    rcases h.cases with ⟨hnil, -⟩ | ⟨inner, suffix, -, heq⟩
    · exact absurd hnil hne
    · have harguments : arguments = [.key inner] :=
        (congrArg Key.arguments heq).trans (Key.arguments_suffix inner suffix)
      have hnumber := hall (.key inner) (harguments ▸ List.mem_cons_self)
      cases hnumber

/-- All that is registered has a plain key. -/
theorem Resolved.plainKey (hr : Resolved describe valid size roots s) {x : Handle}
    (hkey : s.registry.keyOf? x = some key) : PlainKey describe key := by
  have hspelled {text : String} {whole : Key} (hspells : SpellsKey describe text whole)
      (hwithin : key.Within whole) : PlainKey describe key := by
    obtain ⟨base, suffixes, hu, -, rfl⟩ := hspells
    obtain ⟨first, rfl⟩ := hwithin.exists_wrap arguments_keyOfBase
    exact ⟨base, first, hu.described, rfl⟩
  obtain ⟨whole, hwithin, ⟨text, -, hspells⟩ | ⟨u, -, hmentions⟩⟩ := hr.tracked.met x key hkey
  · exact hspelled hspells hwithin
  · obtain ⟨-, -, -, -, text, -, -, -, -, -, hspells⟩ := hmentions
    exact hspelled hspells hwithin

/-- So the texts of registered keys differ. -/
theorem Resolved.textsDiffer (hr : Resolved describe valid size roots s) (module : String) :
    s.registry.TextsDiffer module := by
  intro h h' key key' hkey hkey' htext
  obtain rfl := legible_plainKey.eq_of_text_eq (hr.plainKey hkey) (hr.plainKey hkey') htext
  exact hr.coherent.keyOf?_inj hkey hkey'

end Resolver

namespace Export

/-! ## 2. Roots one after the other -/

section

variable {task : Resolver.Task σ} {asked : Key → Prop} {limits : Limits}
  (hp : PlainDescription describe)
  (hd : Describes task describe valid) (hz : Sizes task valid size)

include hp hd hz

/-- Resolving a root keeps track, and what was declared stays. -/
theorem tracked_resolve {text : String} (hspells : SpellsKey describe text key) (hasked : asked key)
    (hreached : Reached task s) (hs : Resting (fun _ => False) s)
    (ht : Tracked describe valid size asked [] s) {root : Handle}
    (hrun : resolve task limits (.name text) s = .ok root s') :
    Resting (fun _ => False) s' ∧ Tracked describe valid size asked [] s' ∧
      (∀ ref x, s.declared.get? ref = some x → s'.declared.get? ref = some x) ∧
      s'.declared.get? (.name text) = some root := by
  have hresting := ((rests_resolve limits (.name text) hs).of_ok hrun).1
  obtain ⟨_, t, hdeclare, hrest⟩ := bind_eq_ok hrun
  obtain ⟨_, _, hdrain, hlast⟩ := bind_eq_ok hrest
  cases hlast
  obtain ⟨hs₁, hg, ht₁, hdeclared⟩ :=
    tracked_declare hp hd hz limits.depth hspells hasked hs ht hdeclare
  have hdraining := hreached.settled.grow hs₁.toWellFormed hg
  refine ⟨hresting, tracked_drain hp hd hz limits.depth limits.total hs₁ ht₁ hdrain,
    fun ref x hx => ?_, declared_of_drain hdraining hdrain hdeclared⟩
  exact declared_of_drain hdraining hdrain (hg.declared ref x hx)

/-- So does resolving roots one after the other. -/
theorem tracked_resolveRoots
    (hroots : ∀ text ∈ roots, ∃ key, SpellsKey describe text key ∧ asked key)
    (hreached : Reached task s) (hs : Resting (fun _ => False) s)
    (ht : Tracked describe valid size asked [] s)
    (hrun : resolveRoots limits task s (roots.map .name) = .ok s') :
    Tracked describe valid size asked [] s' ∧
      (∀ ref x, s.declared.get? ref = some x → s'.declared.get? ref = some x) ∧
      ∀ text ∈ roots, ∃ h, s'.declared.get? (.name text) = some h := by
  induction roots generalizing s with
  | nil =>
    cases hrun
    exact ⟨ht, fun _ _ hx => hx, nofun⟩
  | cons text rest ih =>
    rw [List.map_cons, resolveRoots] at hrun
    split at hrun
    · rename_i root t hresolve
      obtain ⟨key, hspells, hasked⟩ := hroots text List.mem_cons_self
      obtain ⟨hs₁, ht₁, hkept, hdeclared⟩ :=
        tracked_resolve hp hd hz hspells hasked hreached hs ht hresolve
      obtain ⟨ht₂, hkept₂, hrest⟩ := ih (fun x hx => hroots x (List.mem_cons_of_mem _ hx))
        (.resolve hreached hresolve) hs₁ ht₁ hrun
      refine ⟨ht₂, fun ref x hx => hkept₂ ref x (hkept ref x hx), fun x hx => ?_⟩
      rcases List.mem_cons.mp hx with rfl | hx
      · exact ⟨root, hkept₂ _ _ hdeclared⟩
      · exact hrest x hx
    · cases hrun

/-- **Roots that were resolved one after the other are resolved** as by one request. -/
theorem resolved_resolveRoots {session : σ} (hvalid : valid session)
    (hroots : ∀ text ∈ roots, ∃ key, SpellsKey describe text key)
    (hrun : resolveRoots limits task (.start session) (roots.map .name) = .ok s) :
    Resolved describe valid size roots s := by
  have hsettled := (reached_of_resolveRoots (.start session) hrun).settled
  have hasked : ∀ text ∈ roots, ∃ key, SpellsKey describe text key ∧
      AskedBy describe roots key := by
    intro text hmem
    obtain ⟨key, hspells⟩ := hroots text hmem
    exact ⟨key, hspells, text, hmem, hspells⟩
  obtain ⟨ht, -, hdeclared⟩ := tracked_resolveRoots hp hd hz hasked (.start session)
    (resting_start session) (.start hvalid) hrun
  exact {
    hsettled.toWellFormed with
    tracked := ht
    complete := fun x a ha => ⟨a, ha, hsettled.isComplete ha⟩
    roots := hdeclared }

end

/-! ## 3. Plain modules of a catalog -/

section

variable {catalog : Catalog} {module : String} {settings : Settings}

/-- A catalog answers from its tables. -/
theorem answersFrom_catalog (catalog : Catalog) (module : String) :
    AnswersFrom Catalog.source catalog module fun c => c.tables = catalog.tables where
  answers := by
    intro c ref answer hc hanswer
    have hshape : c.shape? module ref = .ok answer := hanswer
    rwa [Catalog.shape?, Catalog.table, hc] at hshape
  looked := fun _ hc => hc
  polled := fun hc => hc

variable (hc : catalog.Built) (hm : PlainModule catalog module)
  (hvoid : ¬MixesVoid catalog module)

include hc hm hvoid

/-- Plain roots of a plain module are resolved. -/
theorem resolved_of_plainModule
    (hroots : ∀ text ∈ roots, ∃ key, SpellsKey (catalog.describe module) text key) {limits : Limits}
    {s : Resolver.State Catalog}
    (hrun : resolveRoots limits ⟨Catalog.source, module⟩ (.start catalog) (roots.map .name) =
      .ok s) :
    Resolved (catalog.describe module) (fun c => c.tables = catalog.tables)
      (catalog.tableOrNew module).pointerSize roots s := by
  obtain ⟨table, htable⟩ := Option.isSome_iff_exists.mp hm.known
  refine resolved_resolveRoots (hm.plainDescription hvoid)
    ((answersFrom_catalog catalog module).describes hc) ?_ rfl hroots hrun
  intro c n htables hanswer
  have hsize : c.pointerSize module = .ok n := hanswer
  rw [Catalog.pointerSize, Catalog.table, htables, htable] at hsize
  rw [Catalog.tableOrNew, htable]
  exact (Except.ok.inj hsize).symm

/-- **The order of the roots does not show in a plain module.** The roots are declarators over
names that take no scalar's key; all names that the module lists are. If an export succeeds with
the roots in either order, the sources and the declarations are the same. -/
theorem exportModule_perm (hw : settings.writer.Natural) {roots roots' : List String}
    (hroots : ∀ text ∈ roots, ∃ key, SpellsKey (catalog.describe module) text key)
    (hperm : roots.Perm roots') {output output' : ModuleOutput} {session session' : Catalog}
    (hrun : exportModule Catalog.source settings ⟨module, roots.map .name⟩ catalog =
      .ok output session)
    (hrun' : exportModule Catalog.source settings ⟨module, roots'.map .name⟩ catalog =
      .ok output' session') :
    output'.source = output.source ∧ output'.declarations = output.declarations := by
  by_cases hnil : roots = []
  · -- the module is asked what it lists in both runs
    subst hnil
    obtain rfl := List.nil_perm.mp hperm
    cases hrun.symm.trans hrun'
    exact ⟨rfl, rfl⟩
  · have hnil' : roots' ≠ [] := fun h => hnil (List.perm_nil.mp (h ▸ hperm))
    have hne : roots.map Ref.name ≠ [] := by simpa using hnil
    have hne' : roots'.map Ref.name ≠ [] := by simpa using hnil'
    obtain ⟨_, _, _, s, -, hstart, hlist, hstate, -, -⟩ := exists_of_exportModule_ok hrun
    cases (checkCancelled_catalog module catalog).symm.trans hstart
    cases (rootsOf_catalog module hne catalog).symm.trans hlist
    obtain ⟨_, _, _, s', -, hstart', hlist', hstate', -, -⟩ := exists_of_exportModule_ok hrun'
    cases (checkCancelled_catalog module catalog).symm.trans hstart'
    cases (rootsOf_catalog module hne' catalog).symm.trans hlist'
    have hr := resolved_of_plainModule hc hm hvoid hroots hstate
    have hr' := (resolved_of_plainModule hc hm hvoid
      (fun text hmem => hroots text (hperm.mem_iff.mpr hmem)) hstate').perm hperm.symm
    have hp := hm.plainDescription hvoid
    exact exportModule_rename hw hne hne' hstate hstate' (renames_graph hp hr hr')
      (renames_registry hp hr hr') (hr.textsDiffer module) hrun hrun'

/-- What is resolved can be exported, unless it is so much that numbers could run out: nothing has
an alias that cannot be written. -/
theorem exists_exportModule (hne : roots ≠ [])
    (hroots : ∀ text ∈ roots, ∃ key, SpellsKey (catalog.describe module) text key)
    {s : Resolver.State Catalog}
    (hrun : resolveRoots settings.limits ⟨Catalog.source, module⟩ (.start catalog)
      (roots.map .name) = .ok s)
    (hroom : s.registry.keys.length + Naming.reservedIdentifiers.length ≤ 10000) :
    ∃ output session, exportModule Catalog.source settings ⟨module, roots.map .name⟩ catalog =
      .ok output session := by
  have hr := resolved_of_plainModule hc hm hvoid hroots hrun
  have hkeys : ∀ h ∈ selected module s.graph s.registry, ∃ key, s.registry.keysOf h = [key] := by
    intro h hh
    obtain ⟨key, hkey⟩ := Option.isSome_iff_exists.mp
      ((hr.coherent.mem_keys_iff h).mp (selected_subset module s.graph s.registry hh))
    exact ⟨key, hr.tracked.plain.single h key hkey⟩
  have hlength : (selected module s.graph s.registry).length ≤ s.registry.keys.length := by
    have hnodup : (selected module s.graph s.registry).Nodup := nodup_selected hr.coherent
    have hsub := hnodup.subperm (selected_subset module s.graph s.registry)
    exact hsub.length_le.trans_eq (List.length_map _)
  have hcard := List.toFinset_card_le Naming.reservedIdentifiers
  have hnumbers : ((selected module s.graph s.registry).length +
      Naming.reservedIdentifiers.toFinset.card : Int) ≤ 10000 := by omega
  obtain ⟨ps, hps⟩ : ∃ ps, Naming.proposals { truncateNamespace := settings.truncateNamespace }
      module s.graph s.registry (selected module s.graph s.registry) = .ok ps :=
    Naming.exists_proposals hkeys
  obtain ⟨names, hnames⟩ := Naming.exists_allocate hps hnumbers
  exact ⟨_, _, exportModule_catalog (by simpa using hne) hrun hnames⟩

end

/-- Two cycles, and a struct that embeds another one. -/
def cyclesAndPair : Catalog :=
  structTables [("A", ["C", "B"]), ("B", ["A"]), ("C", ["A"]), ("D", ["E"]), ("E", ["int"])]

/-- The cycles are entered elsewhere in the other order, and the pair comes before them. -/
theorem exportModule_perm_cyclesAndPair : ∃ output session output' session',
    exportModule Catalog.source plainSettings ⟨"m", ["A", "B", "C", "D", "E"].map .name⟩
        cyclesAndPair = .ok output session ∧
      exportModule Catalog.source plainSettings ⟨"m", ["E", "B", "D", "C", "A"].map .name⟩
        cyclesAndPair = .ok output' session' ∧
      output'.source = output.source ∧ output'.declarations = output.declarations := by
  have hplain : ((cyclesAndPair.tables.get? "m").any fun table =>
      table.byName.all isPlainEntry) = true := by
    decide +kernel
  obtain ⟨table, htable, hall⟩ := (Option.any_eq_true _ _).mp hplain
  have hm : PlainModule cyclesAndPair "m" := plainModule_of_all htable hall
  have hvoid : ¬MixesVoid cyclesAndPair "m" := by
    rintro ⟨hlists, -⟩
    have hnone : cyclesAndPair.listed? "m" "void" = none := by decide +kernel
    rw [hnone] at hlists
    cases hlists
  have hlisted : ∀ text ∈ ["A", "B", "C", "D", "E"],
      (cyclesAndPair.listed? "m" text).isSome = true := by
    decide +kernel
  have hperm : ["A", "B", "C", "D", "E"].Perm ["E", "B", "D", "C", "A"] := by decide
  have hroots : ∀ text ∈ ["A", "B", "C", "D", "E"], ∃ key,
      SpellsKey (cyclesAndPair.describe "m") text key :=
    fun text hmem => hm.exists_spellsKey (hlisted text hmem)
  have hfirst : resolves plainSettings "m" cyclesAndPair (["A", "B", "C", "D", "E"].map .name)
      (fun s => s.registry.keys.length + Naming.reservedIdentifiers.length ≤ 10000) = true := by
    decide +kernel
  have hsecond : resolves plainSettings "m" cyclesAndPair (["E", "B", "D", "C", "A"].map .name)
      (fun s => s.registry.keys.length + Naming.reservedIdentifiers.length ≤ 10000) = true := by
    decide +kernel
  obtain ⟨s, hresolve, hroom⟩ := exists_of_resolves hfirst
  obtain ⟨s', hresolve', hroom'⟩ := exists_of_resolves hsecond
  have hc : cyclesAndPair.Built := built_structTables _
  obtain ⟨output, session, hrun⟩ := exists_exportModule hc hm hvoid (by simp) hroots hresolve
    (of_decide_eq_true hroom)
  obtain ⟨output', session', hrun'⟩ := exists_exportModule hc hm hvoid (by simp)
    (fun text hmem => hroots text (hperm.mem_iff.mpr hmem)) hresolve' (of_decide_eq_true hroom')
  exact ⟨output, session, output', session', hrun, hrun',
    exportModule_perm hc hm hvoid (Accessor.natural_writer {}) hroots hperm hrun hrun'⟩

end Export

end NativeTypes
