/-
NativeTypes.Proofs.Export.Roots — the order of the roots of a module.

The registry keeps the first instance under a key and forgets what else was
described under it. Functions of one signature share a key, so of two of
them only the first is declared, and the order of roots shows in the source
(`exists_rootOrder`). It does not where the roots lead to the same registered
types under other handles (`exportModule_rename`).
-/
import NativeTypes.Proofs.Export.Renaming
import NativeTypes.Proofs.Resolver.Requests
import NativeTypes.Source.Catalog
import NativeTypes.Writer.Accessor

namespace NativeTypes.Export

/-! ## 1. What a catalog exports -/

theorem checkCancelled_catalog (module : String) (catalog : Catalog) :
    checkCancelled Catalog.source module catalog = .ok () catalog := rfl

/-- Roots that are named are those that are resolved. -/
theorem rootsOf_catalog (module : String) {roots : List Ref} (hroots : roots ≠ [])
    (catalog : Catalog) : rootsOf Catalog.source ⟨module, roots⟩ catalog = .ok roots catalog := by
  unfold rootsOf
  rw [if_pos (by simpa using hroots)]
  rfl

/-- Roots are resolved by requests. -/
theorem reached_of_resolveRoots {σ : Type} {limits : Resolver.Limits} {task : Resolver.Task σ}
    {roots : List Ref} {s s' : Resolver.State σ} (hs : Resolver.Reached task s)
    (hrun : resolveRoots limits task s roots = .ok s') : Resolver.Reached task s' := by
  induction roots generalizing s with
  | nil =>
    cases hrun
    exact hs
  | cons root rest ih =>
    rw [resolveRoots] at hrun
    split at hrun
    · rename_i hresolve
      exact ih (.resolve hs hresolve) hrun
    · cases hrun

/-- Exporting a module of a catalog, given what resolving and naming come to. -/
theorem exportModule_catalog {settings : Settings} {module : String} {roots : List Ref}
    {catalog : Catalog} {s : Resolver.State Catalog} {names : NameTable} (hroots : roots ≠ [])
    (hresolve : resolveRoots settings.limits ⟨Catalog.source, module⟩ (.start catalog) roots =
      .ok s)
    (hnames : Naming.allocate { truncateNamespace := settings.truncateNamespace } module s.graph
      s.registry (selected module s.graph s.registry) = .ok names) :
    exportModule Catalog.source settings ⟨module, roots⟩ catalog =
      .ok (assemble settings module s.graph s.registry s.diagnostics names
        (Emission.order (s.registry.keyText module) s.graph
          (selected module s.graph s.registry))) s.session := by
  have hlisted := (reached_of_resolveRoots (.start catalog) hresolve).instances?_eq module
  unfold exportModule
  rw [run_bind_ok (checkCancelled_catalog module catalog),
    run_bind_ok (rootsOf_catalog module hroots catalog), run_get_bind]
  simp only [hresolve, run_set_bind]
  simp only [hlisted, hnames, Option.isNone_some, Bool.false_eq_true, if_false]
  rw [run_bind_ok (checkCancelled_catalog module s.session)]
  rfl

/-- **Roots in any order, or other roots, export the same** source and declarations where they
resolve to the same registered types under other handles. -/
theorem exportModule_rename {settings : Settings} (hw : settings.writer.Natural)
    {module : String} {roots roots' : List Ref} (hroots : roots ≠ []) (hroots' : roots' ≠ [])
    {catalog : Catalog} {s s' : Resolver.State Catalog}
    (hresolve : resolveRoots settings.limits ⟨Catalog.source, module⟩ (.start catalog) roots =
      .ok s)
    (hresolve' : resolveRoots settings.limits ⟨Catalog.source, module⟩ (.start catalog) roots' =
      .ok s')
    {f : Handle ≃ Handle} (hg : Graph.Renames f s.graph s'.graph)
    (hr : Registry.Renames f s.registry s'.registry) (htexts : s.registry.TextsDiffer module)
    {output output' : ModuleOutput} {session session' : Catalog}
    (hrun : exportModule Catalog.source settings ⟨module, roots⟩ catalog = .ok output session)
    (hrun' : exportModule Catalog.source settings ⟨module, roots'⟩ catalog =
      .ok output' session') :
    output'.source = output.source ∧ output'.declarations = output.declarations := by
  have hcoherent {roots : List Ref} {t : Resolver.State Catalog}
      (ht : resolveRoots settings.limits ⟨Catalog.source, module⟩ (.start catalog) roots = .ok t) :
      t.registry.Coherent :=
    (reached_of_resolveRoots (.start catalog) ht).settled.coherent
  obtain ⟨_, _, _, _, names, hstart, hlist, hstate, hnames, rfl⟩ := exists_of_exportModule_ok hrun
  cases (checkCancelled_catalog module catalog).symm.trans hstart
  cases (rootsOf_catalog module hroots catalog).symm.trans hlist
  cases hresolve.symm.trans hstate
  obtain ⟨_, _, _, _, names', hstart', hlist', hstate', hnames', rfl⟩ :=
    exists_of_exportModule_ok hrun'
  cases (checkCancelled_catalog module catalog).symm.trans hstart'
  cases (rootsOf_catalog module hroots' catalog).symm.trans hlist'
  cases hresolve'.symm.trans hstate'
  exact export_rename hw hg hr (hcoherent hresolve) (hcoherent hresolve') htexts hnames hnames' _ _

/-- One instance alone is declared, under this identifier: nothing is invalid, no other instance
is named, and the identifier is free. -/
def declaresOnly (settings : Settings) (module : String) (h : Handle) (ident : String)
    (s : Resolver.State Catalog) : Bool :=
  s.registry.invalid.isEmpty &&
    (s.registry.keys.map Prod.fst).filter (fun x => (s.graph.get x).isNamed) = [h] &&
    match Naming.proposals { truncateNamespace := settings.truncateNamespace } module s.graph
      s.registry [h] with
    | .ok [p] => p.handle = h ∧ p.candidate = ident ∧ ident ∉ Naming.reservedIdentifiers ∧
        (render settings.writer module s.graph s.registry [(h, ident)] [h]).1.map
          Fragment.identifier = [ident]
    | _ => false

theorem exists_of_declaresOnly {settings : Settings} {module : String} {roots : List Ref}
    {catalog : Catalog} {s : Resolver.State Catalog} {h : Handle} {ident : String}
    (hroots : roots ≠ [])
    (hresolve : resolveRoots settings.limits ⟨Catalog.source, module⟩ (.start catalog) roots =
      .ok s) (honly : declaresOnly settings module h ident s = true) :
    ∃ output session, exportModule Catalog.source settings ⟨module, roots⟩ catalog =
      .ok output session ∧ output.declarations = [ident] := by
  simp only [declaresOnly, Bool.and_eq_true, decide_eq_true_eq, List.isEmpty_iff] at honly
  obtain ⟨⟨hvalid, hnamed⟩, hproposals⟩ := honly
  have hselected : selected module s.graph s.registry = [h] :=
    List.perm_singleton.mp (hnamed ▸ perm_selected_of_valid hvalid)
  have horder (key : Handle → String) (g : Graph) : Emission.order key g [h] = [h] :=
    List.perm_singleton.mp (Emission.perm_order key g (List.nodup_singleton h))
  split at hproposals
  · rename_i p hp
    obtain ⟨rfl, rfl, hfree, hrender⟩ := of_decide_eq_true hproposals
    have hnames : Naming.allocate { truncateNamespace := settings.truncateNamespace } module
        s.graph s.registry [p.handle] = .ok [(p.handle, p.candidate)] := by
      simp [Naming.allocate, hp, bind, Except.bind, pure, Except.pure, Naming.giveBare, hfree,
        Naming.giveNumbered, Assoc.put]
    refine ⟨_, _, exportModule_catalog hroots hresolve (hselected ▸ hnames), ?_⟩
    rw [hselected, horder]
    exact hrender
  · cases hproposals

/-! ## 2. Where the order shows -/

/-- Resolving the roots returns, and the state that it leaves passes a check. -/
def resolves (settings : Settings) (module : String) (catalog : Catalog) (roots : List Ref)
    (check : Resolver.State Catalog → Bool) : Bool :=
  match resolveRoots settings.limits ⟨Catalog.source, module⟩ (.start catalog) roots with
  | .ok s => check s
  | .error _ => false

theorem exists_of_resolves {settings : Settings} {module : String} {catalog : Catalog}
    {roots : List Ref} {check : Resolver.State Catalog → Bool}
    (h : resolves settings module catalog roots check = true) :
    ∃ s, resolveRoots settings.limits ⟨Catalog.source, module⟩ (.start catalog) roots = .ok s ∧
      check s = true := by
  unfold resolves at h
  split at h
  · rename_i s hs
    exact ⟨s, hs, h⟩
  · cases h

/-- Two functions of one signature. -/
def twoFunctions : Catalog :=
  let shape (name : String) := Shape.ofFunction name (.name "int") [.name "int"] false
  (({} : Catalog).add "m" (shape "f") none).add "m" (shape "g") none

/-- The accessor writer with its usual options. -/
def plainSettings : Settings := { writer := Accessor.writer {} }

/-- **The order of roots may show**: only the first of two functions of one signature is
declared. -/
theorem exists_rootOrder : ∃ output output' session session',
    exportModule Catalog.source plainSettings ⟨"m", [.name "f", .name "g"]⟩ twoFunctions =
        .ok output session ∧
      exportModule Catalog.source plainSettings ⟨"m", [.name "g", .name "f"]⟩ twoFunctions =
        .ok output' session' ∧
      output.declarations = ["f"] ∧ output'.declarations = ["g"] := by
  have hf : resolves plainSettings "m" twoFunctions [.name "f", .name "g"]
      (declaresOnly plainSettings "m" 1 "f") = true := by decide +kernel
  have hg : resolves plainSettings "m" twoFunctions [.name "g", .name "f"]
      (declaresOnly plainSettings "m" 1 "g") = true := by decide +kernel
  obtain ⟨s, hs, honly⟩ := exists_of_resolves hf
  obtain ⟨s', hs', honly'⟩ := exists_of_resolves hg
  obtain ⟨output, session, hrun, hdeclarations⟩ := exists_of_declaresOnly (by simp) hs honly
  obtain ⟨output', session', hrun', hdeclarations'⟩ := exists_of_declaresOnly (by simp) hs' honly'
  exact ⟨output, output', session, session', hrun, hrun', hdeclarations, hdeclarations'⟩

end NativeTypes.Export
