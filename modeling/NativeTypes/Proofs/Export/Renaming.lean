/-
NativeTypes.Proofs.Export.Renaming — what is made of a resolved module does
not depend on handles.

The registered instances stand in the order of their keys, so they are the
same under other handles as soon as the texts of keys tell them apart
(`instances_rename`). Selecting, naming, ordering and rendering then do the
same (`selected_rename`, `render_rename`), and the source and the
declarations are equal (`assemble_rename`).
-/
import NativeTypes.Export.Run
import NativeTypes.Proofs.Export.Selection
import NativeTypes.Proofs.Order.Renaming
import NativeTypes.Proofs.Registry
import NativeTypes.Proofs.Runs
import NativeTypes.Proofs.Writer.Natural
import NativeTypes.Proofs.Writer.NaturalCtypes
import NativeTypes.Writer.Declare

namespace NativeTypes

/-- **Every writer there is makes the same code of a graph under other handles.** -/
theorem Writer.natural_of_available {name purpose : String} {make : WriterOptions → Writer}
    (h : (name, purpose, make) ∈ Writer.available) (options : WriterOptions) :
    (make options).Natural := by
  unfold Writer.available at h
  rcases List.mem_cons.mp h with he | h
  · obtain ⟨-, -, rfl⟩ := Prod.mk.inj he |>.imp id Prod.mk.inj
    exact Accessor.natural_writer options
  · obtain ⟨-, -, rfl⟩ := Prod.mk.inj (List.mem_singleton.mp h) |>.imp id Prod.mk.inj
    exact Ctypes.natural_writer options

/-- The texts of the primary keys tell the registered instances apart. -/
def Registry.TextsDiffer (module : String) (r : Registry Key) : Prop :=
  ∀ h h' key key', r.keyOf? h = some key → r.keyOf? h' = some key' →
    key.text module = key'.text module → h = h'

namespace Export

variable {f : Handle ≃ Handle} {g g' : Graph} {r r' : Registry Key} {module : String}

/-! ## 1. Selection -/

theorem keysDiffer_instances (hr : r.Coherent) (htexts : r.TextsDiffer module) :
    Emission.KeysDiffer (r.keyText module) (r.keys.map Prod.fst) := by
  intro a ha b hb hab
  obtain ⟨ka, hka⟩ := Option.isSome_iff_exists.mp ((hr.mem_keys_iff a).mp ha)
  obtain ⟨kb, hkb⟩ := Option.isSome_iff_exists.mp ((hr.mem_keys_iff b).mp hb)
  unfold Registry.keyText at hab
  rw [hka, hkb] at hab
  exact htexts a b ka kb hka hkb hab

theorem instances_rename (hr : Registry.Renames f r r') (hc : r.Coherent) (hc' : r'.Coherent)
    (htexts : r.TextsDiffer module) :
    r'.instances module = (r.instances module).map f := by
  have hperm : (r'.keys.map Prod.fst).Perm ((r.keys.map Prod.fst).map f) := by
    refine (List.perm_ext_iff_of_nodup hc'.nodup (hc.nodup.map f.injective)).mpr fun h => ?_
    rw [← f.apply_symm_apply h, List.mem_map_of_injective f.injective, hc'.mem_keys_iff,
      hc.mem_keys_iff, hr.keyOf?]
  have hdiffer : Emission.KeysDiffer (r'.keyText module) (r'.keys.map Prod.fst) := by
    intro a ha b hb hab
    obtain ⟨x, hx, rfl⟩ := List.mem_map.mp (hperm.mem_iff.mp ha)
    obtain ⟨y, hy, rfl⟩ := List.mem_map.mp (hperm.mem_iff.mp hb)
    rw [hr.keyText, hr.keyText] at hab
    exact congrArg f (keysDiffer_instances hc htexts x hx y hy hab)
  unfold Registry.instances
  rw [mergeSort_eq_of_perm hperm hdiffer]
  refine (List.map_mergeSort fun a _ b _ => ?_).symm
  rw [hr.keyText, hr.keyText]

theorem selected_rename (hg : Graph.Renames f g g') (hr : Registry.Renames f r r')
    (hinstances : r'.instances module = (r.instances module).map f) :
    selected module g' r' = (selected module g r).map f := by
  have hcandidate (h : Handle) : ((g'.get (f h)).isNamed && !r'.isInvalid (f h)) =
      ((g.get h).isNamed && !r.isInvalid h) := by
    rw [hg.get, Instance.isNamed_rename, hr.isInvalid]
  have hdependency (h : Handle) : (invalidDependency? g' r' (f h)).isNone =
      (invalidDependency? g r h).isNone := by
    unfold invalidDependency?
    rw [hg.embedded? hr.isInvalid, Option.isNone_map]
  unfold selected candidates
  rw [hinstances, List.filter_map, List.filter_map]
  simp only [Function.comp_def, hcandidate, hdependency]

/-! ## 2. Rendering -/

theorem render_rename {w : Writer} (hw : w.Natural) (hg : Graph.Renames f g g')
    (hr : Registry.Renames f r r') {names names' : NameTable}
    (hn : NameTable.Renames f names names') (hs : List Handle) :
    render w module g' r' names' (hs.map f) =
      ((render w module g r names hs).1.map (Fragment.rename f),
        (render w module g r names hs).2) := by
  induction hs with
  | nil => rfl
  | cons h hs ih =>
    rw [List.map_cons, render, render, ih, hw.declare hg hn]
    cases w.declare g names (Naming.members g) h with
    | ok fragment => rfl
    | error e => simp only [Except.map, hr.keyText]

theorem assemble_rename {settings : Settings} (hw : settings.writer.Natural)
    (hg : Graph.Renames f g g') (hr : Registry.Renames f r r') {names names' : NameTable}
    (hn : NameTable.Renames f names names') (hs : List Handle)
    (diagnostics diagnostics' : List Diagnostic) :
    (assemble settings module g' r' diagnostics' names' (hs.map f)).source =
        (assemble settings module g r diagnostics names hs).source ∧
      (assemble settings module g' r' diagnostics' names' (hs.map f)).declarations =
        (assemble settings module g r diagnostics names hs).declarations := by
  unfold assemble
  simp only [render_rename hw hg hr hn, hw.assemble hg, List.map_map]
  exact ⟨trivial, rfl⟩

/-! ## 3. Exporting a module -/

/-- What exporting a module comes to if it returns. -/
theorem exists_of_exportModule_ok {σ : Type} {source : Source σ} {settings : Settings}
    {request : ModuleRequest} {session session' : σ} {output : ModuleOutput}
    (hrun : exportModule source settings request session = .ok output session') :
    ∃ (started listed : σ) (roots : List Ref) (s : Resolver.State σ) (names : NameTable),
      checkCancelled source request.module session = .ok () started ∧
      rootsOf source request started = .ok roots listed ∧
      resolveRoots settings.limits ⟨source, request.module⟩ (.start listed) roots = .ok s ∧
      Naming.allocate { truncateNamespace := settings.truncateNamespace } request.module s.graph
        s.registry (selected request.module s.graph s.registry) = .ok names ∧
      output = assemble settings request.module s.graph s.registry s.diagnostics names
        (Emission.order (s.registry.keyText request.module) s.graph
          (selected request.module s.graph s.registry)) := by
  unfold exportModule at hrun
  obtain ⟨_, started, hstart, hrun⟩ := bind_eq_ok hrun
  obtain ⟨roots, listed, hroots, hrun⟩ := bind_eq_ok hrun
  rw [run_get_bind] at hrun
  cases hresolve : resolveRoots settings.limits ⟨source, request.module⟩ (.start listed) roots with
  | error failure =>
    rw [hresolve] at hrun
    cases hrun
  | ok s =>
    rw [hresolve] at hrun
    simp only [run_set_bind] at hrun
    split at hrun
    · cases hrun
    cases hnames : Naming.allocate { truncateNamespace := settings.truncateNamespace }
        request.module s.graph s.registry (selected request.module s.graph s.registry) with
    | error fault =>
      rw [hnames] at hrun
      cases hrun
    | ok names =>
      rw [hnames] at hrun
      obtain ⟨_, _, -, hrun⟩ := bind_eq_ok hrun
      cases hrun
      exact ⟨started, listed, roots, s, names, hstart, hroots, hresolve, hnames, rfl⟩

/-- **What is exported depends on what is registered and not on handles**: of two resolved
modules that are the same under other handles, if both get identifiers, the sources and the
declarations are the same. -/
theorem export_rename {settings : Settings} (hw : settings.writer.Natural)
    (hg : Graph.Renames f g g') (hr : Registry.Renames f r r') (hc : r.Coherent)
    (hc' : r'.Coherent) (htexts : r.TextsDiffer module) {policy : Naming.Policy}
    {names names' : NameTable}
    (hnames : Naming.allocate policy module g r (selected module g r) = .ok names)
    (hnames' : Naming.allocate policy module g' r' (selected module g' r') = .ok names')
    (diagnostics diagnostics' : List Diagnostic) :
    let output := assemble settings module g r diagnostics names
      (Emission.order (r.keyText module) g (selected module g r))
    let output' := assemble settings module g' r' diagnostics' names'
      (Emission.order (r'.keyText module) g' (selected module g' r'))
    output'.source = output.source ∧ output'.declarations = output.declarations := by
  have hinstances := instances_rename hr hc hc' htexts
  have hselected := selected_rename hg hr hinstances
  have horder := Emission.order_rename (hr.keyText module) hg (nodup_selected hc)
    ((keysDiffer_instances hc htexts).subset (selected_subset module g r))
  rw [hselected, Naming.allocate_rename hg hr, hnames] at hnames'
  cases hnames'
  have hn : NameTable.Renames f names (Assoc.rename f names) := fun h =>
    Assoc.get?_rename f.injective names h
  rw [hselected, horder]
  exact assemble_rename hw hg hr hn _ diagnostics diagnostics'

end Export

end NativeTypes
