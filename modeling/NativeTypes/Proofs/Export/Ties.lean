/-
NativeTypes.Proofs.Export.Ties — no two instances tie in the order of keys.

Instances, identifiers and declarations are ordered by the texts of primary
keys. Primary keys are those that arise, so where these are legible no two
instances have one text (`Attempted.textsDiffer`). Then the instances ascend
strictly, and neither the identifiers nor the order of declarations depend on
how these stood before. Where names are not neat, or where something else
goes by the full name of a struct with numbers for arguments, there are ties
(`exists_tie`).
-/
import NativeTypes.Proofs.Export.Renaming
import NativeTypes.Proofs.Naming.Allocation
import NativeTypes.Proofs.Resolver.Readable
import NativeTypes.Proofs.Resolver.Returns

namespace NativeTypes

/-! ## 1. What texts are compared for -/

namespace Registry

variable {r : Registry Key} {module : String}

/-- Instances without ties ascend. -/
theorem pairwise_instances (hr : r.Coherent) (htexts : r.TextsDiffer module) :
    (r.instances module).Pairwise fun h h' => r.keyText module h < r.keyText module h' :=
  pairwise_lt_mergeSort (hr.nodup.map_on (Export.keysDiffer_instances hr htexts))

end Registry

namespace Emission

/-- Declarations without ties are ordered in one way. -/
theorem order_perm {key : Handle → String} {hs hs' : List Handle} (hdiffer : KeysDiffer key hs)
    (hperm : hs'.Perm hs) (g : Graph) : order key g hs' = order key g hs := by
  unfold order
  rw [mergeSort_eq_of_perm hperm.symm hdiffer]

end Emission

namespace Resolver

open Text

variable {σ : Type} {task : Task σ} {describe : Description} {valid : σ → Prop} {s : State σ}

theorem Attempted.coherent (hs : Attempted task valid s) : s.registry.Coherent := by
  obtain ⟨session, -, hs⟩ := hs
  exact (hs.wellFormed (settled_start task.module session).toWellFormed).1.coherent

/-- **The texts of primary keys tell instances apart** where the keys that arise are legible. -/
theorem Attempted.textsDiffer (hd : Describes task describe valid) (hs : Attempted task valid s)
    (hread : Readable describe (Met s)) : s.registry.TextsDiffer task.module := by
  intro h h' key key' hkey hkey' htext
  have harises := (hs.keyed hd).arises
  have heq := hread.legible.eq_of_text_eq (harises h key hkey) (harises h' key' hkey') htext
  exact hs.coherent.keyOf?_inj hkey (heq ▸ hkey')

/-- **The order of instances is total.** Where the keys that arise are legible, no two instances
have one text, whatever was requested and however that ended. So the instances ascend strictly,
and identifiers and the order of declarations do not depend on how the instances stood before. -/
theorem Attempted.order_total (hd : Describes task describe valid) (hs : Attempted task valid s)
    (hread : Readable describe (Met s)) :
    (∀ h h', IsRegistered s h → IsRegistered s h' → h ≠ h' →
      s.registry.keyText task.module h ≠ s.registry.keyText task.module h') ∧
    (s.registry.instances task.module).Pairwise (fun h h' =>
      s.registry.keyText task.module h < s.registry.keyText task.module h') ∧
    ∀ hs hs', (∀ h ∈ hs, IsRegistered s h) → hs.Nodup → hs'.Perm hs →
      (∀ policy table, Naming.allocate policy task.module s.graph s.registry hs = .ok table →
        Naming.allocate policy task.module s.graph s.registry hs' = .ok table) ∧
      Emission.order (s.registry.keyText task.module) s.graph hs' =
        Emission.order (s.registry.keyText task.module) s.graph hs := by
  have htexts := hs.textsDiffer hd hread
  have hcoherent := hs.coherent
  have hdiffer := Export.keysDiffer_instances hcoherent htexts
  refine ⟨fun h h' hh hh' hne htext => hne ?_, Registry.pairwise_instances hcoherent htexts,
    fun hs hs' hregistered hnodup hperm => ?_⟩
  · exact hdiffer h ((hcoherent.mem_keys_iff h).mpr hh) h' ((hcoherent.mem_keys_iff h').mpr hh')
      htext
  · have hsome : Emission.KeysDiffer (s.registry.keyText task.module) hs :=
      hdiffer.subset fun h hh => (hcoherent.mem_keys_iff h).mpr (hregistered h hh)
    have hmap : (hs.map (s.registry.keyText task.module)).Nodup := hnodup.map_on hsome
    exact ⟨fun policy table h => Naming.allocate_perm hmap h hperm,
      Emission.order_perm hsome hperm s.graph⟩

/-- The tables of a struct with a number for its argument, of one that has it among its arguments,
and of one whose name is no type name. -/
def pairTables : Catalog :=
  ((Catalog.add {} "m" (Shape.ofAggregate "Foo<3>" (some 8) [] [] false) none).add "m"
    (Shape.ofAggregate "{lambda()#1}" (some 1) [] [] false) (some 7)).add "m"
    (Shape.ofAggregate "Pair<Foo<3>*, 4>" (some 24)
      [⟨"first", .name "Foo<3>[2]", 0, none, none, false⟩, ⟨"more", .id 7, 16, none, none, false⟩]
      [] false) none

theorem describes_pairTables : Describes ⟨Session.source {}, "m"⟩ (pairTables.describe "m")
    fun t => t.catalog.tables = pairTables.tables :=
  (answersFrom_session {} pairTables "m").describes
    (((Catalog.Built.empty.add "m" _ none).add "m" _ (some 7)).add "m" _ none)

theorem readable_pairTables {met : String → Prop}
    (hmet : ∀ text, met text → (TypeName.parse? text).isSome = true) :
    Readable (pairTables.describe "m") met := by
  have hparsed {text : String} {e : NameSyntaxError} (htext : met text)
      (hparse : TypeName.parse text = .error e) : False := by
    have hsome := hmet text htext
    rw [TypeName.parse?, hparse] at hsome
    cases hsome
  have hshapes {ref : Ref} {shape : Shape} (h : pairTables.describe "m" ref = some shape)
      (hkind : shape.kind ≠ .primitive) : shape ∈ (pairTables.tableOrNew "m").shapes := by
    obtain ⟨table, htable, hlookup⟩ := Catalog.lookup_of_describe h
    rw [Catalog.tableOrNew, htable]
    exact Catalog.mem_shapes_of_lookup hlookup hkind
  have hstruct {shape : Shape} (hkind : shape.isAggregate = true) : shape.kind ≠ .primitive := by
    intro hprimitive
    simp [Shape.isAggregate, hprimitive] at hkind
  have hall : ∀ shape ∈ (pairTables.tableOrNew "m").shapes,
      shape.kind = .struct ∧ IsNeat shape.name.toList ∧
      (((TypeName.parsePlain? shape.title).filter TypeName.isTemplate).isSome = true ∨
        keyOfName shape.title ≠ .named "Foo<3>") ∧
      ∀ t ∈ (TypeName.parsePlain? shape.title).filter TypeName.isTemplate,
        t.baseName ≠ "Foo<3>" ∧ (t.format = "Foo<3>" ∨ fixedArguments? t.arguments = none) := by
    decide +kernel
  refine ⟨fun ref shape hshape hkind => (hall shape (hshapes hshape hkind)).2.1,
    fun text e htext hparse => (hparsed htext hparse).elim, ?_⟩
  intro ref shape t keys hshape hkind ht hfixed _ harises
  have hformat : t.format = "Foo<3>" := by
    refine ((hall shape (hshapes hshape (hstruct hkind))).2.2.2 t ht).2.resolve_right ?_
    simp [hfixed]
  rw [hformat] at harises
  generalize hkey : Key.named "Foo<3>" = key at harises
  cases harises with
  | primitive kind => cases kind <;> exact absurd hkey (by decide)
  | pointer => cases (Key.mk.inj hkey).2
  | array => cases (Key.mk.inj hkey).2
  | function => cases (Key.mk.inj hkey).2
  | enumeration hshape' hkind' =>
    cases hkind'.symm.trans (hall _ (hshapes hshape' (by simp [hkind']))).1
  | aggregate hshape' hkind' hplain =>
    refine ((hall _ (hshapes hshape' (hstruct hkind'))).2.2.1.resolve_left ?_) hkey.symm
    simp [hplain]
  | template hshape' hkind' ht' =>
    exact ((hall _ (hshapes hshape' (hstruct hkind'))).2.2.2 _ ht').1 (Key.mk.inj hkey).1.symm
  | @label ref hdescribed hnot =>
    have hlabel : "Foo<3>" = labelOf ref := (Key.mk.inj hkey).1
    cases ref with
    | id n =>
      have hlist := congrArg String.toList hlabel
      simp [labelOf] at hlist
    | name text =>
      obtain rfl : "Foo<3>" = text := hlabel
      exact absurd (hnot (Shape.ofAggregate "Foo<3>" (some 8) [] [] false) (by decide +kernel))
        (by decide)
  | unmodelled hshape' hkind' =>
    have hsame := hall _ (hshapes hshape' (by rcases hkind' with h | h <;> simp [h]))
    simp [hsame.1] at hkind'
  | refused htext hparse => exact hparsed htext hparse

/-- In this module, among others, the keys `Pair<Foo<3>*, 4>`, `*<Foo<3>>` and `{lambda()#1}` are
told apart after the first one was requested. -/
theorem order_total_pairTables : ∃ root s,
    resolve ⟨Session.source {}, "m"⟩ Limits.usual (.name "Pair<Foo<3>*, 4>")
      (State.start ⟨pairTables, false⟩) = .ok root s ∧ s.registry.size = 5 ∧
    (s.registry.instances "m").Pairwise (fun h h' =>
      s.registry.keyText "m" h < s.registry.keyText "m" h') := by
  have hruns : returns (resolve ⟨Session.source {}, "m"⟩ Limits.usual (.name "Pair<Foo<3>*, 4>"))
      (State.start ⟨pairTables, false⟩) (fun _ s => s.registry.size = 5 && allParsed s) = true := by
    decide +kernel
  obtain ⟨root, s, hrun, hcheck⟩ := exists_of_returns hruns
  obtain ⟨hsize, hparsed⟩ := Bool.and_eq_true_iff.mp hcheck
  have hs : Attempted ⟨Session.source {}, "m"⟩ (fun t => t.catalog.tables = pairTables.tables) s :=
    ⟨⟨pairTables, false⟩, rfl, .single (.returned hrun)⟩
  obtain ⟨-, hsorted, -⟩ := Attempted.order_total describes_pairTables hs
    (readable_pairTables fun text => parse?_of_allParsed hparsed)
  exact ⟨root, s, hrun, of_decide_eq_true hsize, hsorted⟩

/-! ## 2. Ties -/

/-- The tables of a struct, and of one whose name is written like the text of its key. -/
def quotedTables : Catalog :=
  (Catalog.add {} "m" (Shape.ofAggregate "Foo<int>" (some 4) [] [] false) none).add "m"
    (Shape.ofAggregate "Foo<m!int32>" (some 8) [] [] false) (some 7)

/-- The tables of a struct with a number for its argument, and of an enumeration that took its
name. -/
def renamedTables : Catalog :=
  (Catalog.add {} "m" (Shape.ofAggregate "Foo<3>" (some 8) [] [] false) (some 7)).add "m"
    (Shape.ofEnumeration "Foo<3>" none [("a", 0)] (some 4)) none

/-- Two requests return different registered instances with one text. -/
def Tie (tables : Catalog) (text : String) (id : Int) : Prop :=
  ∃ h t h' s, resolve ⟨Session.source {}, "m"⟩ Limits.usual (.name text)
      (State.start ⟨tables, false⟩) = .ok h t ∧
    resolve ⟨Session.source {}, "m"⟩ Limits.usual (.id id) t = .ok h' s ∧
    IsRegistered s h ∧ IsRegistered s h' ∧ h ≠ h' ∧
    s.registry.keyText "m" h = s.registry.keyText "m" h'

/-- **There are ties**: with the name of the module in a name, and with names that are type names
where an enumeration goes by the full name of a struct. -/
theorem exists_tie : Tie quotedTables "Foo<int>" 7 ∧ Tie renamedTables "Foo<3>" 7 := by
  have htie {tables : Catalog} {text : String} {id : Int}
      (h : returns (resolve ⟨Session.source {}, "m"⟩ Limits.usual (.name text))
        (State.start ⟨tables, false⟩) (fun h t =>
          returns (resolve ⟨Session.source {}, "m"⟩ Limits.usual (.id id)) t (fun h' s =>
            (s.registry.keyOf? h).isSome && (s.registry.keyOf? h').isSome && decide (h ≠ h') &&
              s.registry.keyText "m" h == s.registry.keyText "m" h')) = true) :
      Tie tables text id := by
    obtain ⟨x, t, hfirst, hrest⟩ := exists_of_returns h
    obtain ⟨x', s, hsecond, hcheck⟩ := exists_of_returns hrest
    simp only [Bool.and_eq_true, decide_eq_true_eq, beq_iff_eq] at hcheck
    obtain ⟨⟨⟨hx, hx'⟩, hne⟩, htext⟩ := hcheck
    exact ⟨x, t, x', s, hfirst, hsecond, hx, hx', hne, htext⟩
  exact ⟨htie (by decide +kernel), htie (by decide +kernel)⟩

end Resolver

end NativeTypes
