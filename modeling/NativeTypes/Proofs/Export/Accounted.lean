/-
NativeTypes.Proofs.Export.Accounted — every named type of a module has its
place in what is exported.

The registered instances that have names are cut into four lists: those that
are declared, those that could not be rendered, those that are left out for
what they embed, and those that are invalid themselves. The lists have no
element in common, and each comes with its part of the output: declarations
and diagnostics stand in the order of the lists they belong to, one for one,
and what is invalid is blamed by a diagnostic of the resolver (`Accounted`).

Nothing is needed about the writer. One that gives a declaration the
identifier of its instance (`Writer.KeepsNames`) declares no identifier
twice.
-/
import NativeTypes.Proofs.Export.Roots
import NativeTypes.Proofs.Naming.Allocation
import NativeTypes.Proofs.Resolver.Reported
import NativeTypes.Proofs.Writer.Declared

namespace NativeTypes

namespace Export

variable {w : Writer} {module : String} {g : Graph} {r : Registry Key} {names : NameTable}

/-! ## 1. Rendering -/

/-- A declaration is rendered. -/
def renders (w : Writer) (g : Graph) (names : NameTable) (h : Handle) : Bool :=
  (w.declare g names (Naming.members g) h).isOk

/-- The diagnostic says that the instance cannot be rendered, and why. -/
def ReportsFailure (w : Writer) (module : String) (g : Graph) (r : Registry Key) (names : NameTable)
    (h : Handle) (d : Diagnostic) : Prop :=
  ∃ e, w.declare g names (Naming.members g) h = .error e ∧
    d = ⟨.renderFailure, .error, module, r.keyText module h, e.text⟩

variable (w module g r names) in
/-- Fragments and failures stand in the order of the instances they belong to. -/
theorem forall₂_render (hs : List Handle) :
    List.Forall₂ (fun h f => w.declare g names (Naming.members g) h = .ok f)
        (hs.filter (renders w g names)) (render w module g r names hs).1 ∧
      List.Forall₂ (ReportsFailure w module g r names)
        (hs.filter fun h => !renders w g names h) (render w module g r names hs).2 := by
  induction hs with
  | nil => exact ⟨.nil, .nil⟩
  | cons h hs ih =>
    obtain ⟨hfragments, hfailures⟩ := ih
    cases hdeclare : w.declare g names (Naming.members g) h with
    | ok fragment =>
      have hrenders : renders w g names h = true := by simp [renders, hdeclare, Except.isOk,
        Except.toBool]
      rw [List.filter_cons_of_pos hrenders, List.filter_cons_of_neg (by simp [hrenders])]
      simp only [render, hdeclare]
      exact ⟨.cons hdeclare hfragments, hfailures⟩
    | error e =>
      have hfails : renders w g names h = false := by simp [renders, hdeclare, Except.isOk,
        Except.toBool]
      rw [List.filter_cons_of_neg (by simp [hfails]), List.filter_cons_of_pos (by simp [hfails])]
      simp only [render, hdeclare]
      exact ⟨hfragments, .cons ⟨e, hdeclare, rfl⟩ hfailures⟩

/-! ## 2. Selecting -/

/-- The diagnostic says what invalid instance the instance embeds. -/
def ReportsSkipped (module : String) (g : Graph) (r : Registry Key) (h : Handle) (d : Diagnostic) :
    Prop :=
  ∃ culprit, Relation.TransGen g.Embeds h culprit ∧ r.isInvalid culprit = true ∧
    d = ⟨.invalidDependency, .warning, module, r.keyText module h,
      "skipped: embeds invalid type " ++ r.keyText module culprit ++ " by value"⟩

/-- What is left out for what it embeds. -/
def skipped (module : String) (g : Graph) (r : Registry Key) : List Handle :=
  (candidates module g r).filter fun h => !(invalidDependency? g r h).isNone

/-- What has a name and is invalid itself. -/
def invalid (module : String) (g : Graph) (r : Registry Key) : List Handle :=
  (r.instances module).filter fun h => (g.get h).isNamed && r.isInvalid h

variable (module g r) in
theorem forall₂_skippedReports (hs : List Handle) :
    List.Forall₂ (ReportsSkipped module g r)
      (hs.filter fun h => !(invalidDependency? g r h).isNone)
      (hs.filterMap (skipped? module g r)) := by
  induction hs with
  | nil => exact .nil
  | cons h hs ih =>
    cases hfound : invalidDependency? g r h with
    | none =>
      rw [List.filter_cons_of_neg (by simp [hfound]),
        List.filterMap_cons_none (by simp [skipped?, hfound])]
      exact ih
    | some culprit =>
      obtain ⟨hpath, hinvalid⟩ := Graph.transGen_of_embedded? hfound
      rw [List.filter_cons_of_pos (by simp [hfound]),
        List.filterMap_cons_some (by simp [skipped?, hfound]; rfl)]
      exact .cons ⟨culprit, hpath, hinvalid, rfl⟩ ih

variable (module g r) in
/-- The named instances are those that are selected, left out or invalid. -/
theorem perm_named : (selected module g r ++ skipped module g r ++ invalid module g r).Perm
    ((r.instances module).filter fun h => (g.get h).isNamed) := by
  have hcandidates : (selected module g r ++ skipped module g r).Perm (candidates module g r) :=
    List.filter_append_perm _ _
  refine (hcandidates.append_right _).trans ?_
  have hnamed := List.filter_append_perm (fun h => !r.isInvalid h)
    ((r.instances module).filter fun h => (g.get h).isNamed)
  simpa [List.filter_filter, candidates, invalid, Bool.and_comm] using hnamed

/-! ## 3. Accounts -/

/-- The named instances of a module, by what becomes of them. -/
structure Accounts where
  declared : List Handle
  failed : List Handle
  skipped : List Handle
  invalid : List Handle

/-- All of them. -/
def Accounts.all (a : Accounts) : List Handle :=
  a.declared ++ a.failed ++ a.skipped ++ a.invalid

variable {σ : Type}

/-- What the accounts of a module say about its output. -/
structure Accounted (w : Writer) (module : String) (s : Resolver.State σ) (names : NameTable)
    (output : ModuleOutput) (a : Accounts) : Prop where
  /-- No instance is in two places. -/
  nodup : a.all.Nodup
  /-- Every registered instance that has a name is in one. -/
  mem_all : ∀ h, h ∈ a.all ↔ Resolver.IsRegistered s h ∧ (s.graph.get h).isNamed = true
  /-- There is one declaration for each that is declared. -/
  declared : ∃ fragments,
    List.Forall₂ (fun h f => w.declare s.graph names (Naming.members s.graph) h = .ok f)
      a.declared fragments ∧
    output.declarations = fragments.map Fragment.identifier ∧
    output.source = w.assemble s.graph module fragments
  /-- No other instance has the identifier of one that is declared. -/
  identifiers : w.KeepsNames → output.declarations.Nodup ∧
    List.Forall₂ (fun h ident => names.get? h = some ident) a.declared output.declarations
  /-- There is one diagnostic for each that could not be rendered. -/
  failed : List.Forall₂ (ReportsFailure w module s.graph s.registry names) a.failed
    (output.diagnostics.filter fun d => d.kind = .renderFailure)
  /-- There is one for each that is left out. -/
  skipped : List.Forall₂ (ReportsSkipped module s.graph s.registry) a.skipped
    (output.diagnostics.filter fun d => d.kind = .invalidDependency)
  /-- Where the texts of keys tell instances apart, so do the subjects of the diagnostics. -/
  subjects : s.registry.TextsDiffer module → ∀ h, Resolver.IsRegistered s h →
    ((∃ d ∈ output.diagnostics, d.kind = .renderFailure ∧
      d.subject = s.registry.keyText module h) ↔ h ∈ a.failed) ∧
    ((∃ d ∈ output.diagnostics, d.kind = .invalidDependency ∧
      d.subject = s.registry.keyText module h) ↔ h ∈ a.skipped)
  /-- The rest is invalid, and some diagnostic says why. -/
  invalid : ∀ h ∈ a.invalid, s.registry.isInvalid h = true ∧
    Resolver.Blamed module s output.diagnostics h
  /-- What is declared or could not be rendered was selected. -/
  selected : (a.declared ++ a.failed).Perm (selected module s.graph s.registry)
  /-- Selected is what is valid and embeds nothing invalid. -/
  mem_selected : ∀ h, h ∈ Export.selected module s.graph s.registry ↔
    Resolver.IsRegistered s h ∧ (s.graph.get h).isNamed = true ∧
      s.registry.isInvalid h = false ∧
      ∀ y, Relation.TransGen s.graph.Embeds h y → s.registry.isInvalid y = false
  /-- With an instance all named ones that it embeds are selected. -/
  closed : ∀ h ∈ Export.selected module s.graph s.registry, ∀ y,
    Relation.TransGen s.graph.Embeds h y → (s.graph.get y).isNamed = true →
    y ∈ Export.selected module s.graph s.registry

section

variable {task : Resolver.Task σ} {s : Resolver.State σ} (hs : Resolver.Reached task s)
include hs

theorem mem_selected_iff_transGen (h : Handle) :
    h ∈ selected task.module s.graph s.registry ↔
      Resolver.IsRegistered s h ∧ (s.graph.get h).isNamed = true ∧
        s.registry.isInvalid h = false ∧
        ∀ y, Relation.TransGen s.graph.Embeds h y → s.registry.isInvalid y = false := by
  rw [mem_selected_iff hs.settled.coherent hs.settled.parts]
  refine and_congr_right fun _ => and_congr_right fun _ => ⟨fun hvalid => ?_, ?_⟩
  · exact ⟨hvalid h .refl, fun y hy => hvalid y hy.to_reflTransGen⟩
  · rintro ⟨hself, hbelow⟩ y hy
    rcases Relation.reflTransGen_iff_eq_or_transGen.mp hy with rfl | hy
    · exact hself
    · exact hbelow y hy

theorem selected_closed {h y : Handle} (hh : h ∈ selected task.module s.graph s.registry)
    (hpath : Relation.TransGen s.graph.Embeds h y) (hnamed : (s.graph.get y).isNamed = true) :
    y ∈ selected task.module s.graph s.registry := by
  rw [mem_selected_iff_transGen hs] at hh ⊢
  obtain ⟨-, -, -, hvalid⟩ := hh
  refine ⟨?_, hnamed, hvalid y hpath, fun z hz => hvalid z (hpath.trans hz)⟩
  obtain ⟨x, -, hxy⟩ := Relation.TransGen.tail'_iff.mp hpath
  exact hs.settled.toLinked.isRegistered_part ⟨true, Instance.mem_parts_of_valueParts hxy⟩

end

/-! ## 4. An assembled module -/

/-- The accounts of what is rendered in an order. -/
def accountsOf (w : Writer) (module : String) (g : Graph) (r : Registry Key) (names : NameTable)
    (order : List Handle) : Accounts where
  declared := order.filter (renders w g names)
  failed := order.filter fun h => !renders w g names h
  skipped := skipped module g r
  invalid := invalid module g r

theorem kind_of_mem_render {hs : List Handle} :
    ∀ d ∈ (render w module g r names hs).2, d.kind = .renderFailure := by
  intro d hd
  obtain ⟨h, -, e, -, rfl⟩ :=
    Resolver.exists_of_mem_forall₂ (forall₂_render w module g r names hs).2.flip hd
  rfl

theorem kind_of_mem_skippedReports : ∀ d ∈ skippedReports module g r,
    d.kind = .invalidDependency := by
  intro d hd
  obtain ⟨h, -, culprit, -, -, rfl⟩ := Resolver.exists_of_mem_forall₂
    (forall₂_skippedReports module g r (candidates module g r)).flip hd
  rfl

theorem filter_kind_eq_nil {kind : DiagnosticKind} {ds : List Diagnostic}
    (hds : ∀ d ∈ ds, d.kind ≠ kind) : (ds.filter fun d => d.kind = kind) = [] :=
  List.filter_eq_nil_iff.mpr (by simpa using hds)

theorem filter_kind_eq_self {kind : DiagnosticKind} {ds : List Diagnostic}
    (hds : ∀ d ∈ ds, d.kind = kind) : (ds.filter fun d => d.kind = kind) = ds :=
  List.filter_eq_self.mpr (by simpa using hds)

/-- The diagnostics of the two kinds that a resolver does not know, one for each instance. -/
theorem forall₂_diagnostics (settings : Settings) {ds : List Diagnostic}
    (hds : ∀ d ∈ ds, Resolver.FoundWhileResolving d) (order : List Handle) :
    let output := assemble settings module g r ds names order
    let accounts := accountsOf settings.writer module g r names order
    List.Forall₂ (ReportsFailure settings.writer module g r names) accounts.failed
        (output.diagnostics.filter fun d => d.kind = .renderFailure) ∧
      List.Forall₂ (ReportsSkipped module g r) accounts.skipped
        (output.diagnostics.filter fun d => d.kind = .invalidDependency) := by
  have hskipped : ∀ d ∈ skippedReports module g r, d.kind = .invalidDependency :=
    kind_of_mem_skippedReports
  have hfailed : ∀ d ∈ (render settings.writer module g r names order).2,
      d.kind = .renderFailure := kind_of_mem_render
  simp only [assemble, List.filter_append]
  constructor
  · rw [filter_kind_eq_nil fun d hd => (hds d hd).2,
      filter_kind_eq_nil fun d hd => by simp [hskipped d hd], filter_kind_eq_self hfailed]
    exact (forall₂_render settings.writer module g r names order).2
  · rw [filter_kind_eq_nil fun d hd => (hds d hd).1, filter_kind_eq_self hskipped,
      filter_kind_eq_nil fun d hd => by simp [hfailed d hd], List.nil_append, List.append_nil]
    exact forall₂_skippedReports module g r _

variable (w names) in
theorem accountsOf_perm {order : List Handle} (horder : order.Perm (selected module g r)) :
    (accountsOf w module g r names order).all.Perm
      ((r.instances module).filter fun h => (g.get h).isNamed) := by
  have hrendered := (List.filter_append_perm (renders w g names) order).trans horder
  exact ((hrendered.append_right _).append_right _).trans (perm_named module g r)

/-- A writer that keeps names declares each identifier for the instance that it was given to. -/
theorem identifiers_declared (hw : w.KeepsNames) {hs : List Handle} {fragments : List Fragment}
    (h : List.Forall₂ (fun h f => w.declare g names (Naming.members g) h = .ok f) hs fragments) :
    List.Forall₂ (fun h ident => names.get? h = some ident) hs
      (fragments.map Fragment.identifier) := by
  rw [List.forall₂_map_right_iff]
  exact h.imp fun h f hdeclare => (hw _ _ _ _ _ hdeclare).2

theorem nodup_identifiers {hs : List Handle} {idents : List String} (hnodup : hs.Nodup)
    (h : List.Forall₂ (fun h ident => names.get? h = some ident) hs idents)
    (hinjective : ∀ a b ident, names.get? a = some ident → names.get? b = some ident → a = b) :
    idents.Nodup := by
  induction h with
  | nil => exact List.nodup_nil
  | @cons x ident hs idents hx hrest ih =>
    rw [List.nodup_cons] at hnodup ⊢
    refine ⟨fun hmem => ?_, ih hnodup.2⟩
    obtain ⟨y, hy, hget⟩ := Resolver.exists_of_mem_forall₂ hrest.flip hmem
    exact hnodup.1 (hinjective y x ident hget hx ▸ hy)

variable {s : Resolver.State σ} {task : Resolver.Task σ}

/-- Diagnostics that belong to instances one for one name them by their subjects. -/
theorem exists_subject_iff (htexts : s.registry.TextsDiffer module) {kind : DiagnosticKind}
    {R : Handle → Diagnostic → Prop}
    (hsubject : ∀ h d, R h d → d.subject = s.registry.keyText module h) {hs : List Handle}
    {ds : List Diagnostic} (hall : List.Forall₂ R hs (ds.filter fun d => d.kind = kind))
    (hregistered : ∀ x ∈ hs, Resolver.IsRegistered s x) {h : Handle}
    (hh : Resolver.IsRegistered s h) :
    (∃ d ∈ ds, d.kind = kind ∧ d.subject = s.registry.keyText module h) ↔ h ∈ hs := by
  constructor
  · rintro ⟨d, hd, hkind, htext⟩
    have hmem : d ∈ ds.filter fun d => d.kind = kind :=
      List.mem_filter.mpr ⟨hd, decide_eq_true hkind⟩
    obtain ⟨x, hx, hxd⟩ := Resolver.exists_of_mem_forall₂ hall.flip hmem
    obtain ⟨k, hk⟩ := Option.isSome_iff_exists.mp hh
    obtain ⟨k', hk'⟩ := Option.isSome_iff_exists.mp (hregistered x hx)
    rw [hsubject x d hxd, Registry.keyText, Registry.keyText, hk, hk'] at htext
    exact htexts x h k' k hk' hk htext ▸ hx
  · intro hmem
    obtain ⟨d, hd, hxd⟩ := Resolver.exists_of_mem_forall₂ hall hmem
    obtain ⟨hd, hkind⟩ := List.mem_filter.mp hd
    exact ⟨d, hd, of_decide_eq_true hkind, hsubject h d hxd⟩

/-- What is assembled of a state between requests. -/
theorem accounted_assemble {settings : Settings} (hs : Resolver.Reached task s)
    (hnames : Naming.allocate { truncateNamespace := settings.truncateNamespace } task.module
      s.graph s.registry (selected task.module s.graph s.registry) = .ok names)
    {order : List Handle} (horder : order.Perm (selected task.module s.graph s.registry)) :
    Accounted settings.writer task.module s names
      (assemble settings task.module s.graph s.registry s.diagnostics names order)
      (accountsOf settings.writer task.module s.graph s.registry names order) := by
  have hcoherent := hs.settled.coherent
  have hselected : (selected task.module s.graph s.registry).Nodup := nodup_selected hcoherent
  have hall := accountsOf_perm settings.writer names horder
  have hinstances : (s.registry.instances task.module).Nodup :=
    (List.mergeSort_perm _ _).nodup_iff.mpr hcoherent.nodup
  obtain ⟨hfragments, -⟩ :=
    forall₂_render settings.writer task.module s.graph s.registry names order
  obtain ⟨hfailed, hskipped⟩ := forall₂_diagnostics settings hs.foundWhileResolving order
  have hmem : ∀ h, h ∈ (accountsOf settings.writer task.module s.graph s.registry names order).all ↔
      Resolver.IsRegistered s h ∧ (s.graph.get h).isNamed = true := by
    intro h
    rw [hall.mem_iff, List.mem_filter, Registry.instances, List.mem_mergeSort,
      hcoherent.mem_keys_iff]
    rfl
  constructor
  case nodup => exact hall.nodup_iff.mpr (hinstances.filter _)
  case mem_all => exact hmem
  case declared => exact ⟨_, hfragments, rfl, rfl⟩
  case identifiers =>
    intro hw
    have hidents := identifiers_declared hw hfragments
    have hdeclared :=
      (horder.nodup_iff.mpr hselected).filter (renders settings.writer s.graph names)
    exact ⟨nodup_identifiers hdeclared hidents fun a b ident ha hb =>
      Naming.allocate_injective hselected hnames ha hb, hidents⟩
  case failed => exact hfailed
  case skipped => exact hskipped
  case subjects =>
    intro htexts h hh
    constructor
    · refine exists_subject_iff htexts ?_ hfailed (fun x hx => ((hmem x).mp ?_).1) hh
      · rintro x d ⟨e, -, rfl⟩
        rfl
      · simp only [Accounts.all, List.mem_append]
        exact .inl (.inl (.inr hx))
    · refine exists_subject_iff htexts ?_ hskipped (fun x hx => ((hmem x).mp ?_).1) hh
      · rintro x d ⟨culprit, -, -, rfl⟩
        rfl
      · simp only [Accounts.all, List.mem_append]
        exact .inl (.inr hx)
  case invalid =>
    intro h hh
    obtain ⟨-, hflags⟩ := List.mem_filter.mp hh
    have hinvalid : s.registry.isInvalid h = true := (Bool.and_eq_true_iff.mp hflags).2
    refine ⟨hinvalid, (hs.blamed hinvalid).mono ?_⟩
    exact fun d hd => List.mem_append_left _ (List.mem_append_left _ hd)
  case selected => exact (List.filter_append_perm _ _).trans horder
  case mem_selected => exact mem_selected_iff_transGen hs
  case closed => exact fun h hh y hpath hnamed => selected_closed hs hh hpath hnamed

/-- **Nothing is dropped in silence**: whatever a module exports, and with whatever writer, every
registered instance that has a name is declared, or a diagnostic of its own says why it is not,
or it is invalid and some diagnostic says why. What is selected is closed under embedding. -/
theorem exportModule_accounts {source : Source σ} {settings : Settings} {request : ModuleRequest}
    {session session' : σ} {output : ModuleOutput}
    (hrun : exportModule source settings request session = .ok output session') :
    ∃ (started listed : σ) (roots : List Ref) (s : Resolver.State σ) (names : NameTable)
      (accounts : Accounts),
      checkCancelled source request.module session = .ok () started ∧
      rootsOf source request started = .ok roots listed ∧
      resolveRoots settings.limits ⟨source, request.module⟩ (.start listed) roots = .ok s ∧
      Naming.allocate { truncateNamespace := settings.truncateNamespace } request.module s.graph
        s.registry (selected request.module s.graph s.registry) = .ok names ∧
      Accounted settings.writer request.module s names output accounts := by
  obtain ⟨started, listed, roots, s, names, hstart, hroots, hresolve, hnames, rfl⟩ :=
    exists_of_exportModule_ok hrun
  have hreached := reached_of_resolveRoots (.start listed) hresolve
  have hnodup : (selected request.module s.graph s.registry).Nodup :=
    nodup_selected hreached.settled.coherent
  have horder := Emission.perm_order (s.registry.keyText request.module) s.graph hnodup
  exact ⟨started, listed, roots, s, names, _, hstart, hroots, hresolve, hnames,
    accounted_assemble hreached hnames horder⟩

/-- Of two functions of one signature one is registered, and it is declared. -/
theorem exportModule_accounts_twoFunctions : ∃ (output : ModuleOutput) (session : Catalog)
    (s : Resolver.State Catalog) (names : NameTable) (accounts : Accounts),
    exportModule Catalog.source plainSettings ⟨"m", [.name "f", .name "g"]⟩ twoFunctions =
        .ok output session ∧
      Accounted plainSettings.writer "m" s names output accounts ∧
      output.declarations = ["f"] ∧ accounts.declared.length = 1 := by
  have hf : resolves plainSettings "m" twoFunctions [.name "f", .name "g"]
      (declaresOnly plainSettings "m" 1 "f") = true := by decide +kernel
  obtain ⟨s, hs, honly⟩ := exists_of_resolves hf
  obtain ⟨output, session, hrun, hdeclarations⟩ := exists_of_declaresOnly (by simp) hs honly
  obtain ⟨_, _, _, s, names, accounts, -, -, -, -, haccounted⟩ := exportModule_accounts hrun
  refine ⟨output, session, s, names, accounts, hrun, haccounted, hdeclarations, ?_⟩
  rw [(haccounted.identifiers (Accessor.keepsNames _)).2.length_eq, hdeclarations]
  rfl

end Export

end NativeTypes
