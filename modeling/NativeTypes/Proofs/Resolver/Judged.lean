/-
NativeTypes.Proofs.Resolver.Judged — what ended was judged by the rule for
layouts.

`Judged` is what holds between the steps of a resolver: nothing is marked
before it ends, what ended and was not cut off by a cycle is marked for its
first fault if it has one, and the reports of layouts are those of the misfits,
one each. A judgement that was right stays right (`Judged.keep`), as the check
would find the same at any later time, and the only step that adds one is the
end of a definition (`Judged.close`). `Judges` carries both through the
definition of aggregates inside each other, whether it returns or stops
(`definesJudging_define`).

The check is made once, when an aggregate ends, and the rule is stated of the
state at the end of the request. In between types are added and other
aggregates take their parts. The check reads sizes of the parts only, and these
are settled by then: a part that is embedded is complete before its owner takes
it, and complete aggregates do not change (`Steady`).

The reports are a list with an order, and the marks are a table. They are kept
together by a list of misfits in the order of their ends, which is not stored
anywhere; it exists by induction, and grows by one with each report.
-/
import NativeTypes.Proofs.Resolver.Layout
import NativeTypes.Proofs.Resolver.Remembered
import NativeTypes.Proofs.Resolver.Unfinished

namespace NativeTypes.Resolver

variable {σ : Type} {α : Type} {s s' s'' t : State σ} {module : String} {own : List Handle}
  {lost : Handle → Prop} {h : Handle} {a : Aggregate}

/-! ## 1. Judgements
 -/

/-- The definition of the aggregate was cut off by a cycle: it is marked for one. -/
def IsAborted (s : State σ) (h : Handle) : Prop :=
  ∃ path, s.registry.invalid.get? h = some (TypeProblem.valueCycle path).message

/-- The aggregate ended, for no cycle, with parts that do not fit. -/
def IsMisfit (s : State σ) (h : Handle) : Prop :=
  ∃ a, s.graph.get h = .aggregate a ∧ a.stage = .complete ∧ ¬IsAborted s h ∧ Misfit s.graph a

/-- The reports of layouts, in order. -/
def layoutReports (s : State σ) : List Diagnostic :=
  s.diagnostics.filter fun d => d.kind = .invalidLayout

/-- The report of a layout: by the key of the aggregate, with the words of its mark. -/
def layoutReport (module : String) (s : State σ) (h : Handle) : Diagnostic :=
  (TypeProblem.invalidLayout ((s.registry.invalid.get? h).getD "")).diagnostic
    (s.registry.keyText module h) module

/-- What ended is marked for its first fault, unless it was cut off, and each mark for a layout
has one report. -/
structure Judged (module : String) (s : State σ) : Prop where
  ended : ∀ h, s.registry.isInvalid h = true → IsComplete s.graph h
  reasons : ∀ h a, s.graph.get h = .aggregate a → a.stage = .complete → ¬IsAborted s h →
    s.registry.invalid.get? h = (s.graph.layoutFault? a).map LayoutFault.message
  reports : ∃ misfits : List Handle, misfits.Nodup ∧ (∀ h, h ∈ misfits ↔ IsMisfit s h) ∧
    layoutReports s = misfits.map (layoutReport module s)

/-- Only what is registered can be marked. -/
theorem IsMisfit.lt_count (hm : IsMisfit s h) : h < s.graph.count := by
  obtain ⟨a, ha, -⟩ := hm
  exact Graph.lt_count_of_aggregate ha

/-- What an aggregate embeds is in the graph. -/
theorem Linked.valueParts_lt (hs : Linked s) (ha : s.graph.get h = .aggregate a) :
    ∀ p ∈ (Instance.aggregate a).valueParts, p < s.graph.count := fun p hp =>
  hs.parts h (p, true) (Instance.mem_parts_of_valueParts (by rwa [ha]))

/-- What a later state says of an aggregate that is the same there. -/
theorem isMisfit_congr (hs : Linked s) (hg : Steady s.graph s'.graph)
    (hget : ∀ a, a.stage = .complete →
      (s'.graph.get h = .aggregate a ↔ s.graph.get h = .aggregate a))
    (hmark : s'.registry.invalid.get? h = s.registry.invalid.get? h) :
    IsMisfit s' h ↔ IsMisfit s h := by
  have haborted : IsAborted s' h ↔ IsAborted s h := by simp only [IsAborted, hmark]
  refine exists_congr fun a => ?_
  constructor
  · rintro ⟨ha, hc, hnot, hmisfit⟩
    have ha' := (hget a hc).mp ha
    rw [← Graph.isSome_layoutFault?, hg.layoutFault? (hs.valueParts_lt ha'),
      Graph.isSome_layoutFault?] at hmisfit
    exact ⟨ha', hc, mt haborted.mpr hnot, hmisfit⟩
  · rintro ⟨ha, hc, hnot, hmisfit⟩
    rw [← Graph.isSome_layoutFault?, ← hg.layoutFault? (hs.valueParts_lt ha),
      Graph.isSome_layoutFault?] at hmisfit
    exact ⟨(hget a hc).mpr ha, hc, mt haborted.mp hnot, hmisfit⟩

/-- The report says the same later on: the key of an aggregate stays. -/
theorem layoutReport_congr (hs : Linked s) (he : Evolves own s s') (hh : h < s.graph.count)
    (hmark : s'.registry.invalid.get? h = s.registry.invalid.get? h) :
    layoutReport module s' h = layoutReport module s h := by
  rw [layoutReport, layoutReport, hmark, he.keyText hs module hh]

/-- Where nothing ends and nothing is marked, judgements stay. -/
theorem Judged.keep (hj : Judged module s) (hs : Linked s) (he : Evolves own s s')
    (hg : Steady s.graph s'.graph)
    (hsame : ∀ h a, s'.graph.get h = .aggregate a → a.stage = .complete →
      s.graph.get h = .aggregate a)
    (hinvalid : s'.registry.invalid = s.registry.invalid)
    (hreports : layoutReports s' = layoutReports s) : Judged module s' where
  ended := fun h hh => by
    obtain ⟨reason, hr⟩ := (Registry.isInvalid_iff _ _).mp hh
    rw [hinvalid] at hr
    obtain ⟨a, ha, hc⟩ := hj.ended h ((Registry.isInvalid_iff _ _).mpr ⟨reason, hr⟩)
    exact ⟨a, he.complete h a ha hc, hc⟩
  reasons := fun h a ha hc hnot => by
    have ha' := hsame h a ha hc
    rw [hinvalid, hg.layoutFault? (hs.valueParts_lt ha')]
    refine hj.reasons h a ha' hc ?_
    rwa [IsAborted, hinvalid] at hnot
  reports := by
    obtain ⟨misfits, hnodup, hmem, heq⟩ := hj.reports
    refine ⟨misfits, hnodup, fun h => ?_, ?_⟩
    · rw [hmem]
      refine (isMisfit_congr hs hg (fun a hc => ?_) (by rw [hinvalid])).symm
      exact ⟨fun ha => hsame h a ha hc, fun ha => he.complete h a ha hc⟩
    · rw [hreports, heq]
      refine List.map_congr_left fun h hh => ?_
      exact (layoutReport_congr hs he ((hmem h).mp hh).lt_count (by rw [hinvalid])).symm

/-- How an aggregate that took its parts, or was cut off, ends. -/
inductive Verdict (module : String) (s s' : State σ) (h : Handle) (a : Aggregate) : Prop
  | aborted : IsAborted s' h → layoutReports s' = layoutReports s → Verdict module s s' h a
  | fits : s.graph.layoutFault? a = none → s'.registry.invalid.get? h = none →
      layoutReports s' = layoutReports s → Verdict module s s' h a
  | faulty (fault : LayoutFault) : s.graph.layoutFault? a = some fault →
      s'.registry.invalid.get? h = some fault.message →
      layoutReports s' = layoutReports s ++ [layoutReport module s' h] → Verdict module s s' h a

/-- An aggregate ends, and all others are as they were. -/
theorem Judged.close (hj : Judged module s) (hs : Linked s) (ha : s.graph.get h = .aggregate a)
    (hgrowing : a.stage = .growing) (he : Evolves own s s') (hg : Steady s.graph s'.graph)
    (hget : ∀ x, s'.graph.get x =
      if x = h then .aggregate { a with stage := .complete } else s.graph.get x)
    (hothers : ∀ x, x ≠ h → s'.registry.invalid.get? x = s.registry.invalid.get? x)
    (hend : Verdict module s s' h a) : Judged module s' := by
  have hown : s'.graph.get h = .aggregate { a with stage := .complete } := by
    rw [hget, if_pos rfl]
  have hparts := hs.valueParts_lt ha
  have hfault : s'.graph.layoutFault? { a with stage := .complete } = s.graph.layoutFault? a :=
    hg.layoutFault? (a := { a with stage := .complete }) hparts
  have hother : ∀ x, x ≠ h → (IsMisfit s' x ↔ IsMisfit s x) := fun x hx =>
    isMisfit_congr hs hg (fun b _ => by rw [hget, if_neg hx]) (hothers x hx)
  have hbefore : ¬IsMisfit s h := by
    rintro ⟨b, hb, hc, -⟩
    rw [ha] at hb
    cases hb
    rw [hgrowing] at hc
    cases hc
  have hafter : IsMisfit s' h ↔ ¬IsAborted s' h ∧ (s.graph.layoutFault? a).isSome = true := by
    rw [← hfault, Graph.isSome_layoutFault?]
    constructor
    · rintro ⟨b, hb, -, hnot, hmisfit⟩
      rw [hown] at hb
      cases hb
      exact ⟨hnot, hmisfit⟩
    · rintro ⟨hnot, hmisfit⟩
      exact ⟨_, hown, rfl, hnot, hmisfit⟩
  refine ⟨fun x hx => ?_, fun x b hb hc hnot => ?_, ?_⟩
  · by_cases hx' : x = h
    · exact hx' ▸ ⟨_, hown, rfl⟩
    · obtain ⟨reason, hr⟩ := (Registry.isInvalid_iff _ _).mp hx
      rw [hothers x hx'] at hr
      obtain ⟨b, hb, hc⟩ := hj.ended x ((Registry.isInvalid_iff _ _).mpr ⟨reason, hr⟩)
      exact ⟨b, by rw [hget, if_neg hx', hb], hc⟩
  · by_cases hx' : x = h
    · subst hx'
      rw [hown] at hb
      cases hb
      rw [hfault]
      cases hend with
      | aborted haborted => exact absurd haborted hnot
      | fits hnone hmark => rw [hmark, hnone, Option.map_none]
      | faulty fault hsome hmark => rw [hmark, hsome, Option.map_some]
    · rw [hget, if_neg hx'] at hb
      rw [hothers x hx', hg.layoutFault? (hs.valueParts_lt hb)]
      refine hj.reasons x b hb hc ?_
      rwa [IsAborted, hothers x hx'] at hnot
  · obtain ⟨misfits, hnodup, hmem, heq⟩ := hj.reports
    have hnot : h ∉ misfits := fun hh => hbefore ((hmem h).mp hh)
    have hold : misfits.map (layoutReport module s) = misfits.map (layoutReport module s') := by
      refine List.map_congr_left fun x hx => ?_
      have hx' : x ≠ h := fun hx' => hnot (hx' ▸ hx)
      exact (layoutReport_congr hs he ((hmem x).mp hx).lt_count (hothers x hx')).symm
    have hkept : ¬IsMisfit s' h → ∀ x, x ∈ misfits ↔ IsMisfit s' x := by
      intro hfits x
      rw [hmem]
      by_cases hx : x = h
      · subst hx
        exact iff_of_false hbefore hfits
      · exact (hother x hx).symm
    cases hend with
    | aborted haborted hreports =>
      exact ⟨misfits, hnodup, hkept fun hm => (hafter.mp hm).1 haborted,
        by rw [hreports, heq, hold]⟩
    | fits hnone hmark hreports =>
      refine ⟨misfits, hnodup, hkept fun hm => ?_, by rw [hreports, heq, hold]⟩
      have hsome := (hafter.mp hm).2
      rw [hnone] at hsome
      cases hsome
    | faulty fault hsome hmark hreports =>
      refine ⟨misfits ++ [h],
        List.perm_append_comm.nodup_iff.mp
          (List.nodup_cons.mpr ⟨hnot, hnodup⟩ : ([h] ++ misfits).Nodup),
        fun x => ?_, by rw [hreports, heq, hold, List.map_append]; rfl⟩
      rw [List.mem_append, List.mem_singleton]
      by_cases hx : x = h
      · subst hx
        refine iff_of_true (.inr rfl) (hafter.mpr ⟨?_, by rw [hsome]; rfl⟩)
        rintro ⟨path, hpath⟩
        rw [hmark] at hpath
        exact LayoutFault.message_ne fault path (Option.some.inj hpath)
      · rw [hmem, hother x hx]
        exact or_iff_left hx

/-! ## 2. Steps

Each elementary step of the define phase either leaves marks and completed aggregates alone, and
then `Judged.keep` applies, or is the end of one definition, and then it is one of the three
verdicts. -/

/-- From one state to the next, judgements stay right. -/
structure Judges (module : String) (s s' : State σ) : Prop where
  steady : Steady s.graph s'.graph
  judged : Judged module s → Judged module s'

namespace Judges

theorem refl (s : State σ) : Judges module s s := ⟨.refl _, fun hj => hj⟩

theorem trans (h : Judges module s s') (h' : Judges module s' s'') : Judges module s s'' :=
  ⟨h.steady.trans h'.steady, fun hj => h'.judged (h.judged hj)⟩

/-- Graph, marks and diagnostics stay. -/
theorem of_eq (hgraph : s'.graph = s.graph) (hregistry : s'.registry = s.registry)
    (hdiagnostics : s'.diagnostics = s.diagnostics) : Judges module s s' where
  steady := hgraph ▸ .refl _
  judged := fun hj => by
    have hreport : layoutReport module s' = layoutReport module s := by
      funext h
      rw [layoutReport, layoutReport, hregistry]
    refine ⟨?_, ?_, ?_⟩
    · rw [hgraph, hregistry]
      exact hj.ended
    · simp only [IsAborted, hgraph, hregistry]
      exact hj.reasons
    · simp only [IsMisfit, IsAborted, layoutReports, hreport, hgraph, hregistry, hdiagnostics]
      exact hj.reports

end Judges

/-- Declaring reports no layout. -/
theorem Grows.judges (hs : WellFormed s) (hg : Grows s s') : Judges module s s' := by
  have hsteady : Steady s.graph s'.graph :=
    ⟨hg.count, fun h hh _ => hg.get h hh, fun h a ha =>
      ⟨a, by rw [hg.get h (Graph.lt_count_of_aggregate ha), ha], rfl, rfl, rfl⟩⟩
  obtain ⟨new, -, -, -, hnew, hempty⟩ := hg.waiting
  obtain ⟨ds, hds, hkinds⟩ := hg.diagnostics
  refine ⟨hsteady, fun hj => hj.keep hs.toLinked (hg.evolves : Evolves [] s s') hsteady ?_
    hg.invalid ?_⟩
  · intro h a ha hc
    by_cases hlt : h < s.graph.count
    · rw [← hg.get h hlt, ha]
    · have hstage := (hempty h ((hnew h).mpr ⟨Nat.le_of_not_lt hlt, a, ha⟩) a ha).2.2
      rw [hc] at hstage
      cases hstage
  · have hnone : ds.filter (fun d => d.kind = .invalidLayout) = [] := by
      refine List.filter_eq_nil_iff.mpr fun d hd => ?_
      rcases hkinds d hd with hk | hk <;> simp [hk]
    rw [layoutReports, layoutReports, hds, List.filter_append, hnone, List.append_nil]

/-- An aggregate that takes a part has not ended. -/
theorem judges_assigned (hs : Linked s) (ha : s.graph.get h = .aggregate a)
    (hgrowing : a.stage = .growing) (p : PartShape) (x : Handle) :
    Judges module s (assigned s h (p.add x a)) := by
  have hget := get_assigned (p.add x a) ha
  have he : Evolves [h] s (assigned s h (p.add x a)) :=
    evolves_assigned _ ha (by simp [hgrowing])
  have hsteady : Steady s.graph (assigned s h (p.add x a)).graph := by
    refine ⟨he.count, he.other, fun y b hb => ?_⟩
    by_cases hy : y = h
    · subst hy
      rw [ha] at hb
      cases hb
      refine ⟨_, by rw [hget, if_pos rfl], ?_⟩
      cases p <;> exact ⟨rfl, rfl, rfl⟩
    · exact ⟨b, by rw [hget, if_neg hy, hb], rfl, rfl, rfl⟩
  refine ⟨hsteady, fun hj => hj.keep hs he hsteady (fun y b hb hc => ?_) rfl rfl⟩
  by_cases hy : y = h
  · rw [hget, if_pos hy] at hb
    cases hb
    rw [PartShape.stage_add, hgrowing] at hc
    cases hc
  · rwa [hget, if_neg hy] at hb

/-- Ending an aggregate changes nothing but whether it may grow. -/
theorem steady_closed (ha : s.graph.get h = .aggregate a) (hgrowing : a.stage = .growing) :
    Steady s.graph (closed s h).graph := by
  have he := evolves_closed ha hgrowing
  refine ⟨he.count, he.other, fun x b hb => ?_⟩
  rw [get_closed ha hgrowing]
  by_cases hx : x = h
  · subst hx
    rw [ha] at hb
    cases hb
    exact ⟨_, if_pos rfl, rfl, rfl, rfl⟩
  · exact ⟨b, by rw [if_neg hx, hb], rfl, rfl, rfl⟩

/-- An aggregate that fits ends. -/
theorem judges_closed (hs : Linked s) (ha : s.graph.get h = .aggregate a)
    (hgrowing : a.stage = .growing) (hfits : s.graph.layoutFault? a = none) :
    Judges module s (closed s h) := by
  refine ⟨steady_closed ha hgrowing, fun hj => hj.close hs ha hgrowing
    (evolves_closed ha hgrowing) (steady_closed ha hgrowing) (get_closed ha hgrowing)
    (fun _ _ => rfl) (.fits hfits ?_ rfl)⟩
  cases hmark : s.registry.invalid.get? h with
  | none => exact hmark
  | some reason =>
    have hended := hj.ended h ((Registry.isInvalid_iff _ _).mpr ⟨reason, hmark⟩)
    exact absurd ⟨a, ha, hgrowing⟩ hended.not_growing

/-- An aggregate ends with a mark. -/
theorem judges_marked (hs : Linked s) (ha : s.graph.get h = .aggregate a)
    (hgrowing : a.stage = .growing) {reason : String} {ds : List Diagnostic}
    (hverdict : s.registry.invalid.get? h = none →
      Verdict module s (closed (marked s h reason ds) h) h a) :
    Judges module s (closed (marked s h reason ds) h) := by
  have ha' : (marked s h reason ds).graph.get h = .aggregate a := ha
  refine ⟨steady_closed ha' hgrowing, fun hj => hj.close hs ha hgrowing
    ((evolves_marked _ _).trans (evolves_closed ha' hgrowing)) (steady_closed ha' hgrowing)
    (get_closed ha' hgrowing) (fun x hx => ?_) (hverdict ?_)⟩
  · show (s.registry.markInvalid h reason).invalid.get? x = _
    rw [Registry.get?_markInvalid, if_neg (Ne.symm hx)]
  · cases hmark : s.registry.invalid.get? h with
    | none => rfl
    | some reason =>
      have hended := hj.ended h ((Registry.isInvalid_iff _ _).mpr ⟨reason, hmark⟩)
      exact absurd ⟨a, ha, hgrowing⟩ hended.not_growing

/-- The first mark of an aggregate is the one it keeps. -/
theorem get?_invalid_closed {reason : String} {ds : List Diagnostic}
    (hnone : s.registry.invalid.get? h = none) :
    (closed (marked s h reason ds) h).registry.invalid.get? h = some reason := by
  show (s.registry.markInvalid h reason).invalid.get? h = _
  rw [Registry.get?_markInvalid, if_pos rfl, hnone, Option.getD_none]

/-- The report of an aggregate that was marked just now. -/
theorem layoutReport_of_marked {reason : String} {key : Key}
    (hregistry : s'.registry = s.registry.markInvalid h reason)
    (hnone : s.registry.invalid.get? h = none) (hkey : s.registry.keyOf? h = some key) :
    layoutReport module s' h =
      (TypeProblem.invalidLayout reason).diagnostic (key.text module) module := by
  have hkey' : (s.registry.markInvalid h reason).keyOf? h = some key := hkey
  have hmark : (s.registry.markInvalid h reason).invalid.get? h = some reason := by
    rw [Registry.get?_markInvalid, if_pos rfl, hnone, Option.getD_none]
  rw [layoutReport, hregistry, hmark, keyText_of_keyOf? hkey', Option.getD_some]

/-- An aggregate with parts that do not fit ends. -/
theorem judges_faulty (hs : Linked s) (ha : s.graph.get h = .aggregate a)
    (hgrowing : a.stage = .growing) {fault : LayoutFault} {key : Key}
    (hfault : s.graph.layoutFault? a = some fault) (hkey : s.registry.keyOf? h = some key) :
    Judges module s (closed (marked s h fault.message
      [(TypeProblem.invalidLayout fault.message).diagnostic (key.text module) module]) h) := by
  refine judges_marked hs ha hgrowing fun hnone =>
    .faulty fault hfault (get?_invalid_closed hnone) ?_
  rw [layoutReport_of_marked rfl hnone hkey]
  exact List.filter_append _ _

/-- An aggregate that a cycle comes through ends. -/
theorem judges_aborted (hs : Linked s) (ha : s.graph.get h = .aggregate a)
    (hgrowing : a.stage = .growing) (path : List String) {ds : List Diagnostic}
    (hds : ∀ d ∈ ds, d.kind = .valueCycle) :
    Judges module s (closed (marked s h (TypeProblem.valueCycle path).message ds) h) := by
  refine judges_marked hs ha hgrowing fun hnone => .aborted ⟨path, get?_invalid_closed hnone⟩ ?_
  have hno : ds.filter (fun d => d.kind = .invalidLayout) = [] := by
    refine List.filter_eq_nil_iff.mpr fun d hd => ?_
    simp [hds d hd]
  show (s.diagnostics ++ ds).filter _ = s.diagnostics.filter _
  rw [List.filter_append, hno, List.append_nil]

/-! ## 3. Defining

The loop over parts keeps judgements, since it ends nothing itself. Then the end of a definition
is judged by how the loop came out. -/

/-- Wherever a run ends, judgements stay right. -/
def Judging (module : String) (s : State σ) (run : Run σ α) : Prop :=
  Ensures run s (fun _ s' => Judges module s s') fun _ s' => Judges module s s'

/-- How aggregates are defined: judgements stay right. -/
def DefinesJudging (module : String) (lost : Handle → Prop) (define : Handle → Run σ Unit) : Prop :=
  ∀ s h, Holding lost s → Judging module s (define h)

section

variable (task : Task σ) {declare : Ref → Run σ Handle} {define : Handle → Run σ Unit}
  {owner : Handle} {shape : Shape}

/-- Taking parts. -/
theorem Walks.judges (hdeclare : Declares declare)
    (hjudging : DefinesJudging module lost define) {ps : List PartShape}
    {r : EStateM.Result Stop (State σ) Unit} (h : Walks lost declare define owner shape ps a s r) :
    Yields r (fun s' => Judges module s s') fun _ s' => Judges module s s' := by
  induction h with
  | done => exact .refl _
  | undeclared hs _ hrun =>
    obtain ⟨-, hg, -⟩ := (hdeclare _ _ hs.toWellFormed).of_error hrun
    exact hg.judges hs.toWellFormed
  | undefined hd _ hrun =>
    exact (hd.grows.judges hd.before.toWellFormed).trans
      ((hjudging _ _ hd.holding).of_error hrun)
  | @took p ps a x s s₁ s₂ r hd hembeds hk₂ ht₂ _ _ _ ih =>
    have hdeclared : Judges module s s₁ := hd.grows.judges hd.before.toWellFormed
    have hdefined : Judges module s₁ s₂ := by
      cases hembeds with
      | alone => exact .refl _
      | defined _ hrun => exact (hjudging _ _ hd.holding).of_ok hrun
    have htaken : Judges module s₂ (assigned s₂ owner (p.add x a)) :=
      judges_assigned hk₂.holding.toLinked ht₂.get (hk₂.holding.isGrowing ht₂) p x
    have hfirst := (hdeclared.trans hdefined).trans htaken
    exact ih.mono (fun _ hj => hfirst.trans hj) fun _ _ hj => hfirst.trans hj

/-- The end of a definition. -/
theorem judges_finish (hs : Holding lost t) (ht : Taking t owner shape a) :
    Yields (finish task owner (.ok () t)) (fun s' => Judges task.module t s')
      fun _ s' => Judges task.module t s' := by
  have hgrowing := hs.isGrowing ht
  obtain ⟨key, hkey⟩ := hs.toLinked.exists_key (Graph.lt_count_of_aggregate ht.get)
  simp only [finish, checkLayout_eq, ht.get, hkey]
  cases hfault : t.graph.layoutFault? a with
  | none => exact judges_closed hs.toLinked ht.get hgrowing hfault
  | some fault =>
    simp only
    cases fault.isWritable with
    | true => exact judges_faulty hs.toLinked ht.get hgrowing hfault hkey
    | false => exact .of_eq rfl rfl rfl

/-- The end of a definition that a cycle cuts off. -/
theorem judges_cut (hs : Holding lost t) (hlast : t.defining.getLast? = some owner)
    (path : List Key) :
    Yields (finish task owner (.error (.valueCycle path) t)) (fun s' => Judges task.module t s')
      fun _ s' => Judges task.module t s' := by
  obtain ⟨a, ha, hgrowing⟩ :=
    hs.growing owner (List.mem_append_right _ (List.mem_of_getLast? hlast))
  obtain ⟨key, hkey⟩ := hs.toLinked.exists_key (Graph.lt_count_of_aggregate ha)
  simp only [finish, meetCycle_eq task hkey]
  by_cases hhead : path.head? = some key
  · rw [if_pos hhead]
    refine judges_aborted hs.toLinked ha hgrowing _ fun d hd => ?_
    cases List.mem_singleton.mp hd
    rfl
  · rw [if_neg hhead]
    exact judges_aborted hs.toLinked ha hgrowing _ fun d hd => absurd hd List.not_mem_nil

/-- **Defining an aggregate keeps judgements right**, however it ends. -/
theorem definesJudging_defineOnce (hdeclare : Declares declare) (hdefine : DefinesAll lost define)
    (hjudging : DefinesJudging task.module lost define) :
    DefinesJudging task.module lost (defineOnce task declare define) := by
  intro s h hs
  by_cases hh : h ∈ s.defining
  · obtain ⟨path, -, hrun⟩ := exists_defineOnce_cycle task declare define hs.toLinked hh
      fun x hx => hs.lt_count (List.mem_append_right _ hx)
    unfold Judging Ensures
    rw [hrun]
    exact .refl s
  by_cases hmem : h ∈ s.placeholders
  · obtain ⟨a, ha, -⟩ := hs.growing h (List.mem_append_left _ hmem)
    obtain ⟨shape, hshape⟩ := (hs.placed h).mpr ⟨a, ha⟩
    have htaking : Taking (entered s h) h shape a := ⟨by simp [entered], hshape, ha⟩
    obtain ⟨r, htakes, hrun⟩ := exists_takes task declare define hh hmem hshape
    have hwalks := htakes.walks hdeclare hdefine (hs.entered hmem) htaking
    have hentered : Judges task.module s (entered s h) := .of_eq rfl rfl rfl
    have hparts := hwalks.judges hdeclare hjudging
    have hkeeps := hwalks.keeps
    refine Yields.ensures (Q := fun s' => Judges task.module s s') ?_
    rw [hrun]
    cases r with
    | ok _ t =>
      obtain ⟨hk, a', ht, -⟩ := hkeeps
      have hfirst := hentered.trans hparts
      exact (judges_finish task hk.holding ht).mono (fun _ hj => hfirst.trans hj)
        fun _ _ hj => hfirst.trans hj
    | error e t =>
      have hk : Keeps [h] (lostBy lost e) (entered s h) t := hkeeps
      have hfirst : Judges task.module s t := hentered.trans hparts
      cases he : e.isCycle with
      | false =>
        rw [finish_stopped task h he]
        exact hfirst.trans (.of_eq rfl rfl rfl)
      | true =>
        obtain ⟨path, rfl⟩ := exists_path_of_isCycle he
        have hlast : t.defining.getLast? = some h := by
          rw [hk.defining]
          simp [entered]
        exact (judges_cut task hk.holding hlast path).mono (fun _ hj => hfirst.trans hj)
          fun _ _ hj => hfirst.trans hj
  · unfold Judging Ensures
    rw [defineOnce_lost task declare define hh hmem]
    exact .refl s

/-- By induction on how deeply aggregates lie inside each other. -/
theorem definesJudging_define (depth n : Nat) :
    DefinesJudging task.module lost (NativeTypes.Resolver.define task depth n) := by
  induction n with
  | zero => exact fun s h _ => .refl s
  | succ n ih =>
    exact definesJudging_defineOnce task (declares_declare task depth)
      (definesAll_define task depth n) ih

/-- What holds of a resolver at any moment between two definitions. -/
structure Keeping (module : String) (s : State σ) : Prop extends Holding (fun _ => True) s where
  judged : Judged module s

variable {task}

/-- The same with all that is known of the lists. -/
theorem keeping_define (depth n : Nat) (hs : Keeping task.module s) (h : Handle) :
    Ensures (NativeTypes.Resolver.define task depth n h) s
      (fun _ s' => Keeping task.module s') fun _ s' => Keeping task.module s' := by
  have hholds : DefinesAll (fun _ => True) (NativeTypes.Resolver.define task depth n) :=
    definesAll_define task depth n
  have hjudges : DefinesJudging task.module (fun _ => True)
      (NativeTypes.Resolver.define task depth n) :=
    definesJudging_define task depth n
  refine ((hholds s h hs.toHolding).and (hjudges s h hs.toHolding)).mono ?_ ?_
  · rintro _ t ⟨⟨hk, -⟩, hj⟩
    exact ⟨hk.holding, hj.judged hs.judged⟩
  · rintro e t ⟨hk, hj⟩
    exact ⟨hk.holding.mono fun _ _ => trivial, hj.judged hs.judged⟩

/-- By induction on the steps that are left to the worklist. -/
theorem keeping_drain (depth n : Nat) (hs : Keeping task.module s) :
    Ensures (drain task depth n) s (fun _ s' => Keeping task.module s')
      fun _ s' => Keeping task.module s' := by
  have hpopped {s : State σ} (hs : Keeping task.module s) (rest : List Handle) :
      Keeping task.module { s with worklist := rest } :=
    ⟨hs.toHolding.popped rest,
      (Judges.of_eq rfl rfl rfl : Judges _ s { s with worklist := rest }).judged hs.judged⟩
  induction n generalizing s with
  | zero =>
    unfold Ensures
    cases hlist : s.worklist with
    | nil =>
      rw [drain_nil _ 0 hlist]
      exact hs
    | cons h rest =>
      simp only [drain, run_get_bind, hlist, List.isEmpty_cons, Bool.not_false, if_true]
      exact hs
  | succ n ih =>
    unfold Ensures
    cases hlist : s.worklist with
    | nil =>
      rw [drain_nil _ (n + 1) hlist]
      exact hs
    | cons h rest =>
      rw [drain_cons _ n hlist]
      cases (s.graph.get h).isFinalized with
      | true =>
        rw [if_pos rfl]
        exact ih (hpopped hs rest)
      | false =>
        rw [if_neg (by simp)]
        exact ensures_bind (keeping_define depth depth (hpopped hs rest) h) fun _ t ht => ih ht

/-- A request: something is declared, and what waits is defined. -/
theorem Steps.keeping_drained {run : Run σ α} {Q : α → State σ → Prop} (hrun : Steps s run Q)
    (hs : Keeping task.module s) (depth n : Nat) :
    Ensures (do
      let a ← run
      drain task depth n
      return a) s (fun _ s' => Keeping task.module s') fun _ s' => Keeping task.module s' := by
  have hgrown {s' : State σ} (hw : WellFormed s') (hg : Grows s s') : Keeping task.module s' :=
    ⟨hs.toHolding.grow hw hg, (hg.judges hs.toWellFormed).judged hs.judged⟩
  refine ensures_bind (P := fun _ s' => Keeping task.module s') (Ensures.mono hrun ?_ ?_) ?_
  · rintro a t ⟨hw, hg, -⟩
    exact hgrown hw hg
  · rintro e t ⟨hw, hg, -⟩
    exact hgrown hw hg
  · intro a t ht
    exact ensures_bind (keeping_drain depth n ht) fun _ u hu => hu

end

end NativeTypes.Resolver
