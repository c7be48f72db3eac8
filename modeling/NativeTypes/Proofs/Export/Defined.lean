/-
NativeTypes.Proofs.Export.Defined — packed structures are defined before they
are used.

The code of a module is a list of statements that are evaluated one after the
other. Member lists come last, so all identifiers are bound when they are
evaluated. Enumerations and structures without members evaluate nothing, and
they stand before the function types, so what is left are prototypes that
evaluate the identifiers of other function types. These keep the order of
declarations, in which what is mentioned comes first
(`Emission.sublist_order_iff`). Function types that mention each other stand in
the order of their keys, whatever their prototypes evaluate: that is the only
exception in `exportModule_defined`, and it does show (`exists_undefined`).

What is shown is an equivalence: an identifier that a statement evaluates is
bound before it if and only if it is not one of these. So nothing is hidden in
the exception, which is a condition on the graph and the keys and mentions no
statement.

Three modules come together here. What an expression evaluates is known from
the writer, as paths through instances without names. That such paths are the
edges of the order, and what the order makes of edges, is known from the order
of declarations. And that every identifier which is evaluated belongs to a
declaration that is written at all is known from the selection.

The counterexample is evaluated piece by piece: the graph that is resolved, the
identifiers and the fragments are each given and shown to be what the export
computes.
-/
import NativeTypes.Proofs.Export.Accounted
import NativeTypes.Proofs.Export.ValueCycles
import NativeTypes.Proofs.Writer.Preludes

namespace NativeTypes

namespace Ctypes

variable {g : Graph} {names : NameTable} {members : MemberNames} {order : List Handle}
  {fragments : List Fragment}

/-! ## 1. Function types that mention each other -/

/-- The statement is the prototype of a function type, and the identifier that of a function type
which it mentions, which mentions it in turn, and whose key is not less than its own. -/
def EvaluatesLater (key : Handle → String) (g : Graph) (instances : List Handle)
    (names : NameTable) (st : Statement) (ident : String) : Prop :=
  ∃ x y f f', g.get x = .function f ∧ g.get y = .function f' ∧ names.get? x = st.binds ∧
    names.get? y = some ident ∧ Emission.MentionsAmong g instances x y ∧
    Emission.le key x y = true ∧ Relation.TransGen (Emission.MentionsAmong g instances) y x

/-- A function type embeds nothing. -/
theorem not_embedsDeclared_of_function {x : Handle} {f : FunctionType}
    (hget : g.get x = .function f) (instances : List Handle) (z : Handle) :
    ¬g.EmbedsDeclared instances x z := by
  intro hedge
  obtain ⟨w, hw, -⟩ := Relation.TransGen.head'_iff.mp hedge.transGen
  rw [Graph.Embeds, hget] at hw
  cases hw

/-- The preludes of enumerations and aggregates come before those of function types. -/
theorem sectionOf_lt {x y : Handle} {f : FunctionType} (hx : g.get x = .function f)
    (hnamed : (g.get y).isNamed = true) (hy : ∀ f', g.get y ≠ .function f') :
    sectionOf (g.get y) < sectionOf (g.get x) := by
  rw [hx]
  cases hget : g.get y with
  | enumeration e => simp [sectionOf]
  | aggregate a => simp [sectionOf]
  | function f' => exact absurd hget (hy f')
  | primitive _ | pointer _ _ | array _ _ | undefined _ =>
    rw [hget] at hnamed
    cases hnamed

section

variable (hinjective : ∀ a b ident, names.get? a = some ident → names.get? b = some ident → a = b)
include hinjective

/-- The identifier of a declaration is bound where its own prelude stands. -/
theorem Rendered.binds_iff (hr : Rendered g names members order fragments) (hnodup : order.Nodup)
    {before : List Fragment} (hbefore : before ⊆ fragments) {f : Fragment} (hf : f ∈ fragments)
    {ident : String} (hname : names.get? f.handle = some ident) :
    Binds (before.filterMap Fragment.prelude) ident ↔ f ∈ before := by
  constructor
  · rintro ⟨st, hst, hbinds⟩
    obtain ⟨f', hf', hst⟩ := List.mem_filterMap.mp hst
    obtain ⟨st', ident', hst', hbinds', hname'⟩ := (hr.declaration (hbefore hf')).exists_prelude
    cases hst.symm.trans hst'
    cases hbinds.symm.trans hbinds'
    rw [← hr.map_handle] at hnodup
    have hsame := List.inj_on_of_nodup_map hnodup (hbefore hf') hf
      (hinjective f'.handle f.handle ident hname' hname)
    exact hsame ▸ hf'
  · intro hmem
    obtain ⟨st, ident', hst, hbinds, hname'⟩ := (hr.declaration hf).exists_prelude
    cases hname.symm.trans hname'
    exact ⟨st, List.mem_filterMap.mpr ⟨f, hmem, hst⟩, hbinds⟩

theorem evaluatesLater_iff {key : Handle → String} {instances : List Handle} {st : Statement}
    {x y : Handle} {f f' : FunctionType} {name ident : String} (hget : g.get x = .function f)
    (hget' : g.get y = .function f') (hname : names.get? x = some name)
    (hbinds : st.binds = some name) (hident : names.get? y = some ident)
    (hmentions : Emission.MentionsAmong g instances x y) :
    EvaluatesLater key g instances names st ident ↔
      Emission.le key x y = true ∧ Relation.TransGen (Emission.MentionsAmong g instances) y x := by
  constructor
  · rintro ⟨x', y', _, _, -, -, hname', hident', -, hle, hback⟩
    rw [hbinds] at hname'
    obtain rfl := hinjective x' x name hname' hname
    obtain rfl := hinjective y' y ident hident' hident
    exact ⟨hle, hback⟩
  · rintro ⟨hle, hback⟩
    exact ⟨x, y, f, f', hget, hget', hname.trans hbinds.symm, hident, hmentions, hle, hback⟩

end

section

variable {σ : Type} {key : Handle → String} {s : Resolver.State σ} {task : Resolver.Task σ}
  (hs : Resolver.Reached task s) (hnames : NamesSelected task s names)
  (hr : Rendered s.graph names members (Emission.order key s.graph
    (Export.selected task.module s.graph s.registry)) fragments)
include hs hnames hr

/-- Statements of member lists come after everything that they evaluate. -/
theorem binds_of_body {st : Statement} {before : List Statement}
    (hbefore : (preludeOrder s.graph fragments).filterMap Fragment.prelude ⊆ before)
    (hst : st ∈ fragments.filterMap Fragment.body) {ident : String} (hident : ident ∈ st.uses) :
    Binds before ident := by
  obtain ⟨f, hf, hst⟩ := List.mem_filterMap.mp hst
  obtain ⟨y, hy⟩ := (hr.declaration hf).exists_of_mem_body hst hident
  have hselected := (hnames y).mp (by rw [hy]; rfl)
  have hnodup : (Export.selected task.module s.graph s.registry).Nodup :=
    Export.nodup_selected hs.settled.coherent
  obtain ⟨st', hst', hbinds⟩ :=
    hr.binds_preludes ((Emission.perm_order key s.graph hnodup).mem_iff.mpr hselected) hy
  exact ⟨st', hbefore hst', hbinds⟩

variable (hinjective : ∀ a b ident, names.get? a = some ident → names.get? b = some ident → a = b)
include hinjective

/-- Preludes stand behind what they evaluate, but for prototypes that mention each other. -/
theorem binds_iff_of_prelude {f : Fragment} {before after : List Fragment}
    (hsplit : preludeOrder s.graph fragments = before ++ f :: after) {st : Statement}
    (hst : f.prelude = some st) {ident : String} (hident : ident ∈ st.uses) :
    Binds (before.filterMap Fragment.prelude) ident ↔
      ¬EvaluatesLater key s.graph (Export.selected task.module s.graph s.registry) names st
        ident := by
  have hnodup : (Export.selected task.module s.graph s.registry).Nodup :=
    Export.nodup_selected hs.settled.coherent
  have horder := Emission.perm_order key s.graph hnodup
  have hnodup' := horder.nodup_iff.mpr hnodup
  have hnamed : ∀ h ∈ Export.selected task.module s.graph s.registry,
      (s.graph.get h).isNamed = true := fun h hh =>
    ((Export.mem_selected_iff hs.settled.coherent hs.settled.parts).mp hh).2.1
  have hmem : ∀ a ∈ before ++ f :: after, a ∈ fragments := fun a ha => by
    rwa [← mem_preludeOrder (g := s.graph), hsplit]
  have hf : f ∈ fragments := hmem f (by simp)
  obtain ⟨t, hget, hname, hident⟩ := (hr.declaration hf).function_of_mem_uses hst hident
  obtain ⟨y, hy, hmentions⟩ := mentions_of_mem_signature hs hnames hget hident
  have hyin := (hnames y).mp (by rw [hy]; rfl)
  obtain ⟨f', hf', rfl, -⟩ := hr.exists_fragment (horder.mem_iff.mpr hyin) hy
  have hxin : f.handle ∈ Export.selected task.module s.graph s.registry :=
    horder.mem_iff.mp (hr.map_handle ▸ List.mem_map_of_mem hf)
  obtain ⟨name, hbinds⟩ := Option.isSome_iff_exists.mp ((hnames f.handle).mpr hxin)
  rw [hr.binds_iff hinjective hnodup' (fun a ha => hmem a (List.mem_append_left _ ha)) hf' hy]
  by_cases hfunction : ∃ t', s.graph.get f'.handle = .function t'
  · obtain ⟨t', hget'⟩ := hfunction
    rw [mem_before_iff hr hnodup' hsplit hf' (by rw [hget, hget']; rfl),
      Emission.sublist_order_iff hs.settled.parts hnamed hnodup
        (not_embedsDeclared_of_function hget _) (not_embedsDeclared_of_function hget' _)
        ⟨hxin, hyin, hmentions⟩,
      evaluatesLater_iff hinjective hget hget' hbinds (hname.symm.trans hbinds) hy
        ⟨hxin, hyin, hmentions⟩]
  · have hearlier := mem_before_of_section hsplit hf'
      (sectionOf_lt hget (hnamed _ hyin) fun t' hget' => hfunction ⟨t', hget'⟩)
    refine iff_of_true hearlier ?_
    rintro ⟨_, y, _, t', -, hget', -, hy', -⟩
    exact hfunction ⟨t', hinjective _ _ ident hy hy' ▸ hget'⟩

/-- **What a statement evaluates is bound before it**, but for prototypes that mention each
other. -/
theorem binds_iff {st : Statement} {before after : List Statement}
    (hsplit : statements s.graph fragments = before ++ st :: after) {ident : String}
    (hident : ident ∈ st.uses) :
    Binds before ident ↔
      ¬EvaluatesLater key s.graph (Export.selected task.module s.graph s.registry) names st
        ident := by
  rcases mem_of_append_eq hsplit with ⟨rest, hpreludes⟩ | ⟨hbody, hbefore⟩
  · obtain ⟨before, f, _, hplace, hst, rfl⟩ := exists_of_filterMap_eq_append hpreludes
    exact binds_iff_of_prelude hs hnames hr hinjective hplace hst hident
  · refine iff_of_true (binds_of_body hs hnames hr hbefore hbody hident) ?_
    -- a member list binds nothing, and a function type has an identifier
    rintro ⟨x, y, _, _, -, -, hname, -, hxy, -, -⟩
    obtain ⟨f, hf, hst⟩ := List.mem_filterMap.mp hbody
    have hsome := (hnames x).mpr hxy.1
    rw [hname, (hr.declaration hf).binds_body hst] at hsome
    cases hsome

end

end Ctypes

namespace Export

open Ctypes (Binds EvaluatesLater Rendered)

/-! ## 2. An exported module -/

/-- Where no failure is reported, every declaration is rendered. -/
theorem rendered_of_no_failure {settings : Settings} {options : WriterOptions}
    (hw : settings.writer = Ctypes.writer options) {module : String} {g : Graph} {r : Registry Key}
    {ds : List Diagnostic} {names : NameTable} {order : List Handle}
    (hrendered : ∀ d ∈ (assemble settings module g r ds names order).diagnostics,
      d.kind ≠ .renderFailure) :
    Rendered g names (Naming.members g) order
      (render settings.writer module g r names order).1 := by
  obtain ⟨hfragments, hfailures⟩ := forall₂_render settings.writer module g r names order
  have hnone : (render settings.writer module g r names order).2 = [] := by
    refine List.eq_nil_iff_forall_not_mem.mpr fun d hd => ?_
    exact hrendered d (List.mem_append_right _ hd) (kind_of_mem_render d hd)
  rw [hnone, List.forall₂_nil_right_iff, List.filter_eq_nil_iff] at hfailures
  have hall : order.filter (renders settings.writer g names) = order :=
    List.filter_eq_self.mpr fun h hh => by simpa using hfailures h hh
  rw [hall] at hfragments
  rw [hw] at hfragments ⊢
  exact hfragments

/-- Where every declaration is rendered, no failure is reported. -/
theorem failures_eq_nil {w : Writer} (module : String) {g : Graph} (r : Registry Key)
    {names : NameTable} {order : List Handle}
    (hall : ∀ h ∈ order, ∃ f, w.declare g names (Naming.members g) h = .ok f) :
    (render w module g r names order).2 = [] := by
  have hfailures := (forall₂_render w module g r names order).2
  have hnone : order.filter (fun h => !renders w g names h) = [] := by
    refine List.filter_eq_nil_iff.mpr fun h hh => ?_
    obtain ⟨f, hf⟩ := hall h hh
    simp [renders, hf, Except.isOk, Except.toBool]
  rw [hnone, List.forall₂_nil_left_iff] at hfailures
  exact hfailures

/-- What is exported as packed structures, all of them rendered. -/
structure Defined {σ : Type} (module : String) (s : Resolver.State σ) (names : NameTable)
    (output : ModuleOutput) (fragments : List Fragment) : Prop where
  /-- There is a fragment for each declaration, in their order. -/
  rendered : Rendered s.graph names (Naming.members s.graph)
    (Emission.order (s.registry.keyText module) s.graph (selected module s.graph s.registry))
    fragments
  declarations : output.declarations = fragments.map Fragment.identifier
  source : output.source = Ctypes.assemble s.graph module fragments
  /-- What a statement evaluates is bound by a statement before it, but for prototypes of function
  types that mention each other and stand in the order of their keys. -/
  binds_iff : ∀ before st after, Ctypes.statements s.graph fragments = before ++ st :: after →
    ∀ ident ∈ st.uses, Binds before ident ↔
      ¬EvaluatesLater (s.registry.keyText module) s.graph (selected module s.graph s.registry)
        names st ident
  /-- An enumeration is based on a type that the library has, so it evaluates nothing. -/
  enumerations : ∀ h e, s.graph.get h = .enumeration e →
    ∃ t : Ctypes.TypeExpression, Ctypes.enumerationBase s.graph names e = t.text ∧ t.uses = []

/-- What is assembled of a state between requests. -/
theorem exists_defined_assemble {σ : Type} {settings : Settings} {options : WriterOptions}
    (hw : settings.writer = Ctypes.writer options) {task : Resolver.Task σ} {s : Resolver.State σ}
    (hs : Resolver.Reached task s) {names : NameTable}
    (hnames : Naming.allocate { truncateNamespace := settings.truncateNamespace } task.module
      s.graph s.registry (selected task.module s.graph s.registry) = .ok names) :
    let output := assemble settings task.module s.graph s.registry s.diagnostics names
      (Emission.order (s.registry.keyText task.module) s.graph
        (selected task.module s.graph s.registry))
    (∀ d ∈ output.diagnostics, d.kind ≠ .renderFailure) →
      ∃ fragments, Defined task.module s names output fragments := by
  intro output hrendered
  have hnodup : (selected task.module s.graph s.registry).Nodup :=
    nodup_selected hs.settled.coherent
  have hgiven : Ctypes.NamesSelected task s names := by
    intro h
    rw [Naming.allocate_isSome_iff hnodup hnames]
    refine ⟨And.left, fun hh => ⟨hh, ?_⟩⟩
    exact ((mem_selected_iff hs.settled.coherent hs.settled.parts).mp hh).2.1
  have hr := rendered_of_no_failure hw hrendered
  refine ⟨_, hr, rfl, ?_, fun before st after hsplit ident hident => ?_, fun h e _ => ?_⟩
  · simp only [output, assemble, hw]
    rfl
  · exact Ctypes.binds_iff hs hgiven hr
      (fun a b _ ha hb => Naming.allocate_injective hnodup hnames ha hb) hsplit hident
  · obtain ⟨t, htext, huses, -⟩ := Ctypes.enumerationBase_given
      (fun y name hname => (Naming.allocate_free hnodup hnames hname).2) e
    exact ⟨t, htext, huses⟩

/-- **Where all declarations are rendered as packed structures, every identifier that a statement
evaluates is bound by a statement before it**, but for the prototypes of function types that
mention each other and stand in the order of their keys. -/
theorem exportModule_defined {σ : Type} {source : Source σ} {settings : Settings}
    {options : WriterOptions} (hw : settings.writer = Ctypes.writer options)
    {request : ModuleRequest} {session session' : σ} {output : ModuleOutput}
    (hrun : exportModule source settings request session = .ok output session')
    (hrendered : ∀ d ∈ output.diagnostics, d.kind ≠ .renderFailure) :
    ∃ (started listed : σ) (roots : List Ref) (s : Resolver.State σ) (names : NameTable)
      (fragments : List Fragment),
      checkCancelled source request.module session = .ok () started ∧
      rootsOf source request started = .ok roots listed ∧
      resolveRoots settings.limits ⟨source, request.module⟩ (.start listed) roots = .ok s ∧
      Naming.allocate { truncateNamespace := settings.truncateNamespace } request.module s.graph
        s.registry (selected request.module s.graph s.registry) = .ok names ∧
      Defined request.module s names output fragments := by
  obtain ⟨started, listed, roots, s, names, hstart, hroots, hresolve, hnames, rfl⟩ :=
    exists_of_exportModule_ok hrun
  have hreached := reached_of_resolveRoots (.start listed) hresolve
  obtain ⟨fragments, hdefined⟩ := exists_defined_assemble hw hreached hnames hrendered
  exact ⟨started, listed, roots, s, names, fragments, hstart, hroots, hresolve, hnames, hdefined⟩

/-! ## 3. Where the order shows -/

/-- A structure with a callback that is given a second callback, which is given the structure. -/
def callbacks : Catalog :=
  let function (name parameter : String) :=
    Shape.ofFunction name (.name "void") [.name parameter] false
  let holder := Shape.ofAggregate "S" (some 8) [⟨"cb", .name "F1*", 0, none, none, false⟩] []
    false
  ((({} : Catalog).add "m" holder none).add "m" (function "F1" "F2*") none).add "m"
    (function "F2" "S*") none

/-- The writer of packed structures with its usual options. -/
def packedSettings : Settings := { writer := Ctypes.writer {} }

/-- The structure when it is resolved. -/
def callbackStruct : Aggregate :=
  ⟨"S", "", some 8, false, none, [], [⟨"cb", 6, 0, none, none, false⟩], .complete, false⟩

/-- All that is resolved with it. -/
def callbackGraph : Graph :=
  ⟨#[.aggregate callbackStruct, .primitive .void, .pointer 0 8,
     .function ⟨1, [2], false, some "F2"⟩, .pointer 3 8,
     .function ⟨1, [4], false, some "F1"⟩, .pointer 5 8]⟩

/-- The keys of all that. -/
def callbackRegistry : Registry Key :=
  let s := Key.named "S"
  let void := Key.named "void"
  let second := Key.function void [.pointer s] false
  let first := Key.function void [.pointer second] false
  [s, void, .pointer s, second, .pointer second, first, .pointer first].zipIdx.foldl
    (fun r entry => r.bind entry.1 entry.2) {}

/-- The identifiers of what is declared. -/
def callbackNames : NameTable := [(5, "F1"), (3, "F2"), (0, "S")]

theorem resolve_callbacks : ∃ s,
    resolveRoots packedSettings.limits ⟨Catalog.source, "m"⟩ (.start callbacks) [.name "S"] =
        .ok s ∧
      s.graph = callbackGraph ∧ s.registry = callbackRegistry ∧ s.diagnostics = [] := by
  have hcheck : resolves packedSettings "m" callbacks [.name "S"] (fun s =>
      s.graph.instances = callbackGraph.instances ∧
        s.registry.byKey = callbackRegistry.byKey ∧ s.registry.keys = callbackRegistry.keys ∧
        s.registry.invalid = [] ∧ s.diagnostics = []) = true := by decide +kernel
  obtain ⟨s, hs, hstate⟩ := exists_of_resolves hcheck
  obtain ⟨hgraph, hbyKey, hkeys, hinvalid, hdiagnostics⟩ := of_decide_eq_true hstate
  refine ⟨s, hs, ?_, ?_, hdiagnostics⟩
  · exact congrArg Graph.mk hgraph
  · exact congr (congr (congrArg Registry.mk hbyKey) hkeys) hinvalid

theorem selected_callbacks : (selected "m" callbackGraph callbackRegistry).Perm [0, 3, 5] :=
  perm_selected_of_valid rfl

theorem allocate_callbacks : Naming.allocate {} "m" callbackGraph callbackRegistry
    (selected "m" callbackGraph callbackRegistry) = .ok callbackNames := by
  have hproposals : Naming.proposals {} "m" callbackGraph callbackRegistry [5, 3, 0] =
      .ok [⟨"F1", "m!()<m!void, m!*<m!()<m!void, m!*<m!S>>>>", 5⟩,
        ⟨"F2", "m!()<m!void, m!*<m!S>>", 3⟩, ⟨"S", "m!S", 0⟩] := rfl
  have hsorted : [(⟨"F1", "m!()<m!void, m!*<m!()<m!void, m!*<m!S>>>>", 5⟩ : Naming.Proposal),
      ⟨"F2", "m!()<m!void, m!*<m!S>>", 3⟩, ⟨"S", "m!S", 0⟩].mergeSort Naming.Proposal.le =
      [⟨"F1", "m!()<m!void, m!*<m!()<m!void, m!*<m!S>>>>", 5⟩,
        ⟨"F2", "m!()<m!void, m!*<m!S>>", 3⟩, ⟨"S", "m!S", 0⟩] :=
    List.mergeSort_of_pairwise (by decide +kernel)
  have hgiven : Naming.allocate {} "m" callbackGraph callbackRegistry [5, 3, 0] =
      .ok callbackNames := by
    unfold Naming.allocate
    rw [hproposals]
    simp only [bind, Except.bind, hsorted]
    rfl
  exact Naming.allocate_perm (by decide +kernel) hgiven (selected_callbacks.trans (by decide))

/-- A pointer to a function type is written as the function type. -/
theorem typeOf?_callback {h target : Handle} {f : FunctionType} {ident : String}
    (hpointer : callbackGraph.get h = .pointer target 8)
    (hfunction : callbackGraph.get target = .function f) (hlt : target < h)
    (hname : callbackNames.get? target = some ident) :
    Ctypes.typeOf? callbackGraph callbackNames h = some (.declared ident) := by
  rw [Ctypes.typeOf?, hpointer]
  simp only [hfunction, hname, if_pos hlt]
  rfl

theorem layoutAs_callbacks (memberNames : List String) :
    Ctypes.layoutAs callbackGraph callbackNames memberNames callbackStruct =
      { entries := [.field 0 (memberNames.getD 0 "") (.declared "F1") 8], cursor := 8 } := by
  have htype : Ctypes.typeOf? callbackGraph callbackNames 6 = some (.declared "F1") :=
    typeOf?_callback rfl rfl (by decide) rfl
  have hsize : callbackGraph.byteSize 6 = some 8 := by cbv
  simp [callbackStruct, Ctypes.layoutAs, Ctypes.membersOf, Ctypes.byOffset, Ctypes.placeFields,
    Ctypes.placeField, Ctypes.placeBases, Ctypes.baseNames, Ctypes.finish, FieldPart.isBitField,
    htype, hsize, Ctypes.Placement.padTo, Ctypes.Placement.add, Ctypes.Placement.moveTo]

theorem declare_callbacks : ∀ h ∈ [0, 3, 5], ∃ f,
    Ctypes.declare callbackGraph callbackNames (Naming.members callbackGraph) h = .ok f := by
  have hstruct : ∃ f,
      Ctypes.declare callbackGraph callbackNames (Naming.members callbackGraph) 0 = .ok f := by
    have hget : callbackGraph.get 0 = .aggregate callbackStruct := rfl
    have hname : Writer.nameOf callbackGraph callbackNames 0 = .ok "S" := rfl
    have hsize : callbackGraph.byteSize 0 = some 8 := by cbv
    obtain ⟨documentation, hdescribe⟩ : ∃ d, Writer.describe callbackGraph 0 = .ok d := by
      have hwritable : Text.isWritable 8 = true := by decide +kernel
      simp only [Writer.describe, hsize, Option.all_some, hwritable]
      exact ⟨_, rfl⟩
    obtain ⟨member, hmembers⟩ : ∃ name, Naming.members callbackGraph 0
        (Ctypes.reserved callbackNames callbackStruct) = [name] := ⟨_, rfl⟩
    unfold Ctypes.declare
    rw [hget]
    simp only [hname, hdescribe, bind, Except.bind]
    rw [hmembers, layoutAs_callbacks]
    exact ⟨_, rfl⟩
  simp only [List.forall_mem_cons, List.not_mem_nil, false_implies, implies_true, and_true]
  exact ⟨hstruct, ⟨_, rfl⟩, ⟨_, rfl⟩⟩

/-- The catalog is exported without failures. -/
theorem export_callbacks : ∃ (s : Resolver.State Catalog) (output : ModuleOutput)
    (session : Catalog) (fragments : List Fragment),
    exportModule Catalog.source packedSettings ⟨"m", [.name "S"]⟩ callbacks =
        .ok output session ∧
      (∀ d ∈ output.diagnostics, d.kind ≠ .renderFailure) ∧
      s.graph = callbackGraph ∧ s.registry = callbackRegistry ∧
      Defined "m" s callbackNames output fragments := by
  obtain ⟨s, hresolve, hgraph, hregistry, hdiagnostics⟩ := resolve_callbacks
  have hreached := reached_of_resolveRoots (.start callbacks) hresolve
  have hnames : Naming.allocate { truncateNamespace := packedSettings.truncateNamespace } "m"
      s.graph s.registry (selected "m" s.graph s.registry) = .ok callbackNames := by
    rw [hgraph, hregistry]
    exact allocate_callbacks
  have hrendered : ∀ d ∈ (assemble packedSettings "m" s.graph s.registry s.diagnostics
      callbackNames (Emission.order (s.registry.keyText "m") s.graph
        (selected "m" s.graph s.registry))).diagnostics, d.kind ≠ .renderFailure := by
    rw [hgraph, hregistry, hdiagnostics]
    have hnodup := selected_callbacks.nodup_iff.mpr (by decide)
    have horder := Emission.perm_order (callbackRegistry.keyText "m") callbackGraph hnodup
    have hfailures := failures_eq_nil (w := packedSettings.writer) "m" callbackRegistry fun h hh =>
      declare_callbacks h (selected_callbacks.mem_iff.mp (horder.mem_iff.mp hh))
    simp only [assemble, hfailures, List.nil_append, List.append_nil]
    intro d hd
    simp [kind_of_mem_skippedReports d hd]
  obtain ⟨fragments, hdefined⟩ := exists_defined_assemble rfl hreached hnames hrendered
  exact ⟨s, _, _, fragments, exportModule_catalog (by simp) hresolve hnames, hrendered, hgraph,
    hregistry, hdefined⟩

/-- All identifiers that the catalog's code evaluates are bound as they should be, but for one. -/
theorem exportModule_defined_callbacks : packedSettings.writer = Ctypes.writer {} ∧
    ∃ (output : ModuleOutput) (session : Catalog) (s : Resolver.State Catalog)
      (names : NameTable) (fragments : List Fragment),
      exportModule Catalog.source packedSettings ⟨"m", [.name "S"]⟩ callbacks =
          .ok output session ∧
        (∀ d ∈ output.diagnostics, d.kind ≠ .renderFailure) ∧
        Defined "m" s names output fragments := by
  obtain ⟨_, output, session, _, hrun, hrendered, -⟩ := export_callbacks
  obtain ⟨_, _, _, s, names, fragments, -, -, -, -, hdefined⟩ :=
    exportModule_defined rfl hrun hrendered
  exact ⟨rfl, output, session, s, names, fragments, hrun, hrendered, hdefined⟩

/-- The types of the first prototype: the second function type is one of them. -/
theorem uses_callbacks : (Ctypes.signature callbackGraph callbackNames
    ⟨1, [4], false, some "F1"⟩).flatMap Ctypes.TypeExpression.uses = ["F2"] := by
  have hvoid : callbackGraph.get 1 = .primitive .void := rfl
  have hpointer : callbackGraph.get 4 = .pointer 3 8 := rfl
  have htype : Ctypes.typeOf? callbackGraph callbackNames 4 = some (.declared "F2") :=
    typeOf?_callback rfl rfl (by decide) rfl
  have hresult : Ctypes.signatureType callbackGraph callbackNames 1 = .given "None" := by
    unfold Ctypes.signatureType
    rw [Ctypes.typeOf?, hvoid]
    rfl
  have hparameter : Ctypes.signatureType callbackGraph callbackNames 4 = .declared "F2" := by
    unfold Ctypes.signatureType
    rw [htype, hpointer]
    rfl
  simp [Ctypes.signature, hresult, hparameter, Ctypes.TypeExpression.uses]

/-- The two function types mention each other, the second one by way of the structure. -/
theorem mentions_callbacks :
    Emission.MentionsAmong callbackGraph (selected "m" callbackGraph callbackRegistry) 5 3 ∧
      Relation.TransGen (Emission.MentionsAmong callbackGraph
        (selected "m" callbackGraph callbackRegistry)) 3 5 := by
  have hmem : ∀ h ∈ [0, 3, 5], h ∈ selected "m" callbackGraph callbackRegistry :=
    fun h hh => selected_callbacks.mem_iff.mpr hh
  refine ⟨⟨hmem 5 (by simp), hmem 3 (by simp), ⟨4, false⟩, by decide, false, .single (by decide)⟩,
    .tail (.single ?_) (?_ : Emission.MentionsAmong _ _ 0 5)⟩
  · exact ⟨hmem 3 (by simp), hmem 0 (by simp), ⟨2, false⟩, by decide, false, .single (by decide)⟩
  · exact ⟨hmem 0 (by simp), hmem 5 (by simp), ⟨6, true⟩, by decide, false, .single (by decide)⟩

/-- **A prototype may evaluate an identifier that is not bound yet**: that of the first callback
stands before the second one, which it evaluates. -/
theorem exists_undefined : ∃ (s : Resolver.State Catalog) (output : ModuleOutput)
    (session : Catalog) (fragments : List Fragment) (before after : List Statement)
    (st : Statement),
    exportModule Catalog.source packedSettings ⟨"m", [.name "S"]⟩ callbacks =
        .ok output session ∧
      (∀ d ∈ output.diagnostics, d.kind ≠ .renderFailure) ∧
      output.declarations = fragments.map Fragment.identifier ∧
      output.source = Ctypes.assemble s.graph "m" fragments ∧
      Ctypes.statements s.graph fragments = before ++ st :: after ∧
      st.binds = some "F1" ∧ "F2" ∈ st.uses ∧ "F2" ∈ output.declarations ∧
      ¬Binds before "F2" := by
  obtain ⟨s, output, session, fragments, hrun, hrendered, hgraph, hregistry, hdefined⟩ :=
    export_callbacks
  have hr := hdefined.rendered
  have horder : ∀ h ∈ [0, 3, 5], h ∈ Emission.order (s.registry.keyText "m") s.graph
      (selected "m" s.graph s.registry) := by
    rw [hgraph, hregistry]
    have hnodup := selected_callbacks.nodup_iff.mpr (by decide)
    exact fun h hh =>
      ((Emission.perm_order _ callbackGraph hnodup).trans selected_callbacks).mem_iff.mpr hh
  have hfirst : callbackNames.get? 5 = some "F1" := rfl
  have hsecond : callbackNames.get? 3 = some "F2" := rfl
  obtain ⟨f, hf, hhandle, st, hst, hbinds⟩ := hr.exists_fragment (horder 5 (by simp)) hfirst
  obtain ⟨f', hf', hhandle', -⟩ := hr.exists_fragment (horder 3 (by simp)) hsecond
  have huses : "F2" ∈ st.uses := by
    have hget : s.graph.get f.handle = .function ⟨1, [4], false, some "F1"⟩ := by
      rw [hhandle, hgraph]
      rfl
    rw [(hr.declaration hf).uses_of_function hst hget, hgraph, uses_callbacks]
    exact List.mem_singleton_self _
  have hident : f'.identifier = "F2" := by
    have hname := hr.identifier hf'
    rw [hhandle', hsecond] at hname
    exact (Option.some.inj hname).symm
  have hmem : st ∈ Ctypes.statements s.graph fragments :=
    List.mem_append_left _ (List.mem_filterMap.mpr ⟨f, Ctypes.mem_preludeOrder.mpr hf, hst⟩)
  obtain ⟨before, after, hsplit⟩ := List.append_of_mem hmem
  refine ⟨s, output, session, fragments, before, after, st, hrun, hrendered,
    hdefined.declarations, hdefined.source, hsplit, hbinds, huses, ?_, ?_⟩
  · rw [hdefined.declarations, ← hident]
    exact List.mem_map_of_mem hf'
  · rw [hdefined.binds_iff before st after hsplit "F2" huses, not_not, hgraph, hregistry]
    obtain ⟨hforth, hback⟩ := mentions_callbacks
    exact ⟨5, 3, _, _, rfl, rfl, hbinds.symm, hsecond, hforth, by decide +kernel, hback⟩

end Export

end NativeTypes
