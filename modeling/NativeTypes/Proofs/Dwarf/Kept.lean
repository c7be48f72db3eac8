/-
NativeTypes.Proofs.Dwarf.Kept — which entry a name leads to.

An entry is found by its name in the namespaces and aggregates around it, to
any depth; what lies in an aggregate without a name belongs to the scope around
that (`Stands`). The walk meets exactly these entries, each with this scope
(`mem_met_iff`): its steps are those of the relation, and the entries it has
met are closed under them. Of the entries with one key the index keeps the
first that tells most, so a definition is never hidden by a declaration
(`ofUnits?_correct`).

The relation goes downwards from the top, one entry at a time, and is not
recursive over trees as the walk is. So it can be read without the walk. The
two directions are shown in two ways: that the walk meets nothing else is an
induction on the trees, that it meets all of it one on the derivation, with the
closure as its step (`visitEntries_enter`).

Indexing fails as a whole where one name cannot be written. When it does is
said as an equivalence too, so the result holds of every forest and not of
those that are indexed.
-/
import NativeTypes.Proofs.Dwarf.Declarations
import NativeTypes.Proofs.Text.Sorted

namespace NativeTypes.Dwarf

/-! ## 1. Where entries stand -/

/-- The entry stands in this scope, somewhere below these entries, which stand in the outer
scope. -/
inductive Stands (outer : List String) (es : List Entry) : List String → Entry → Prop
  | top {e : Entry} : e ∈ es → Stands outer es outer e
  | inNamespace {scope : List String} {e child : Entry} :
      Stands outer es scope e → e.tag = .scope → child ∈ e.children →
      Stands outer es (scope ++ [if e.name = "" then "(anonymous namespace)" else e.name]) child
  | inAggregate {scope : List String} {e child : Entry} :
      Stands outer es scope e → e.tag.isAggregate = true → e.name ≠ "" → child ∈ e.children →
      Stands outer es (scope ++ [e.name]) child
  | inUnnamed {scope : List String} {e child : Entry} :
      Stands outer es scope e → e.tag.isAggregate = true → e.name = "" → child ∈ e.children →
      Stands outer es scope child

variable {outer scope inner : List String} {es : List Entry} {e child : Entry}

/-- What lies in an entry that opens a scope stands in that scope. -/
theorem Stands.enter (h : Stands outer es scope e)
    (hinner : innerScope? scope e.tag e.name = some inner) (hchild : child ∈ e.children) :
    Stands outer es inner child := by
  rw [innerScope?] at hinner
  split at hinner
  · rename_i htag
    cases hinner
    simpa [unnamedScope] using h.inNamespace htag hchild
  · split at hinner
    · rename_i htag
      cases hinner
      by_cases hname : e.name = ""
      · simpa [hname] using h.inUnnamed htag hname hchild
      · simpa [hname] using h.inAggregate htag hname hchild
    · cases hinner

mutual
/-- The walk meets nothing but entries that stand where it says. -/
theorem stands_of_mem_visitEntry : ∀ (root : Entry) (s : List String), Stands outer es s root →
    ∀ m ∈ visitEntry s root, Stands outer es m.1 m.2
  | .mk offset tag attributes children, s, hroot => by
    intro m hm
    rw [visitEntry] at hm
    rcases List.mem_cons.mp hm with rfl | hm
    · exact hroot
    · split at hm
      · rename_i inner hinner
        exact stands_of_mem_visitEntries children inner
          (fun child hchild => hroot.enter hinner hchild) m hm
      · cases hm

theorem stands_of_mem_visitEntries : ∀ (roots : List Entry) (s : List String),
    (∀ root ∈ roots, Stands outer es s root) → ∀ m ∈ visitEntries s roots, Stands outer es m.1 m.2
  | [], _, _ => fun _ hm => nomatch hm
  | root :: roots, s, hroots => by
    intro m hm
    rcases List.mem_append.mp hm with hm | hm
    · exact stands_of_mem_visitEntry root s (hroots root (.head _)) m hm
    · exact stands_of_mem_visitEntries roots s (fun r hr => hroots r (.tail _ hr)) m hm
end

theorem mem_visitEntries_of_mem {roots : List Entry} {s : List String} {root : Entry}
    (hroot : root ∈ roots) {m : List String × Entry} (hm : m ∈ visitEntry s root) :
    m ∈ visitEntries s roots := by
  induction roots with
  | nil => cases hroot
  | cons r roots ih =>
    rw [visitEntries]
    rcases List.mem_cons.mp hroot with rfl | hroot
    · exact List.mem_append_left _ hm
    · exact List.mem_append_right _ (ih hroot)

theorem mem_visitEntry_self (s : List String) (root : Entry) : (s, root) ∈ visitEntry s root := by
  cases root
  exact List.mem_cons_self

mutual
/-- What the walk enters it meets from within. -/
theorem visitEntry_enter (hinner : innerScope? scope e.tag e.name = some inner)
    (hchild : child ∈ e.children) : ∀ (root : Entry) (s : List String),
    (scope, e) ∈ visitEntry s root → (inner, child) ∈ visitEntry s root
  | .mk offset tag attributes children, s, hmet => by
    rw [visitEntry] at hmet ⊢
    rcases List.mem_cons.mp hmet with heq | hmet
    · cases heq
      refine List.mem_cons_of_mem _ ?_
      simp only [Entry.tag, Entry.children] at hinner hchild
      rw [hinner]
      exact mem_visitEntries_of_mem hchild (mem_visitEntry_self inner child)
    · refine List.mem_cons_of_mem _ ?_
      split at hmet
      · exact visitEntries_enter hinner hchild children _ hmet
      · cases hmet

theorem visitEntries_enter (hinner : innerScope? scope e.tag e.name = some inner)
    (hchild : child ∈ e.children) : ∀ (roots : List Entry) (s : List String),
    (scope, e) ∈ visitEntries s roots → (inner, child) ∈ visitEntries s roots
  | [], _, hmet => nomatch hmet
  | root :: roots, s, hmet => by
    rcases List.mem_append.mp hmet with hmet | hmet
    · exact List.mem_append_left _ (visitEntry_enter hinner hchild root s hmet)
    · exact List.mem_append_right _ (visitEntries_enter hinner hchild roots s hmet)
end

theorem Tag.ne_scope_of_isAggregate {t : Tag} (h : t.isAggregate = true) : t ≠ .scope := by
  rintro rfl
  cases h

/-- The walk meets what stands in some scope, each with its scope. -/
theorem mem_visitEntries_iff :
    (scope, e) ∈ visitEntries outer es ↔ Stands outer es scope e := by
  constructor
  · exact stands_of_mem_visitEntries es outer (fun root hroot => .top hroot) (scope, e)
  · intro h
    induction h with
    | top he => exact mem_visitEntries_of_mem he (mem_visitEntry_self outer _)
    | inNamespace _ htag hchild ih =>
      refine visitEntries_enter ?_ hchild es outer ih
      simp [innerScope?, htag, unnamedScope]
    | inAggregate _ htag hname hchild ih =>
      refine visitEntries_enter ?_ hchild es outer ih
      simp [innerScope?, htag, hname, Tag.ne_scope_of_isAggregate htag]
    | inUnnamed _ htag hname hchild ih =>
      refine visitEntries_enter ?_ hchild es outer ih
      simp [innerScope?, htag, hname, Tag.ne_scope_of_isAggregate htag]

namespace Index

/-- The entry stands in this scope, below the top of some unit. -/
def Found (units : List Entry) (scope : List String) (e : Entry) : Prop :=
  ∃ unit ∈ units, Stands [] unit.children scope e

theorem mem_met_iff {units : List Entry} : (scope, e) ∈ met units ↔ Found units scope e := by
  simp only [met, List.mem_flatMap, mem_visitEntries_iff, Found]

/-! ## 2. The entry under a key -/

/-- The first of those that tell most is one entry. -/
theorem IsBest.unique {entries : List Entry} {w w' : Entry} (h : IsBest entries w)
    (h' : IsBest entries w') : w = w' := by
  have hscore : w.score = w'.score := Int.le_antisymm (h'.score_le h.mem) (h.score_le h'.mem)
  have hfind {x : Entry} (hx : IsBest entries x) :
      entries.find? (fun y => x.score ≤ y.score) = some x := by
    obtain ⟨before, after, hsplit, hbefore, -⟩ := hx
    refine List.find?_eq_some_iff_append.mpr ⟨by simp, before, after, hsplit, fun y hy => ?_⟩
    simpa using hbefore y hy
  exact Option.some.inj ((hfind h).symm.trans (hscore ▸ hfind h'))

variable {units : List Entry} {index : Index}

/-- A key leads to the best of the entries that share it, and to nothing else. -/
theorem get?_byName_iff (h : ofUnits? units = some index) (key : String) (w : Entry) :
    index.byName.get? key = some w ↔ IsBest (sharing key (met units)) w := by
  constructor
  · intro hw
    exact isBest_of_foldl ((byName_foldlM h key).symm.trans hw)
  · intro hbest
    obtain ⟨w', hw', hbest'⟩ := byName_ofUnits? h (List.ne_nil_of_mem hbest.mem)
    rw [hw', hbest.unique hbest']

theorem isSome_add? (index : Index) (m : List String × Entry) :
    (add? index m).isSome ↔
      (isNamed m.2 = true → (TypeName.nameKey? (qualify m.1 m.2)).isSome) := by
  unfold add?
  split <;> simp_all

/-- Entries are indexed exactly when every name among them can be written. -/
theorem isSome_foldlM (l : List (List String × Entry)) (index : Index) :
    (l.foldlM add? index).isSome ↔
      ∀ m ∈ l, isNamed m.2 = true → (TypeName.nameKey? (qualify m.1 m.2)).isSome := by
  induction l generalizing index with
  | nil => simp
  | cons m l ih =>
    rw [List.foldlM_cons, List.forall_mem_cons, ← isSome_add? index m]
    cases add? index m with
    | none => simp
    | some next => simpa using ih next

/-- No key is entered twice. -/
theorem nodup_offer {byName : Assoc String Entry} (h : (byName.map Prod.fst).Nodup) (key : String)
    (e : Entry) : ((offer byName key e).map Prod.fst).Nodup := by
  unfold offer
  split
  · exact Assoc.nodup_put h key e
  · split
    · exact Assoc.nodup_put h key e
    · exact h

theorem nodup_foldlM {l : List (List String × Entry)} {index index' : Index}
    (h : l.foldlM add? index = some index') (hnodup : (index.byName.map Prod.fst).Nodup) :
    (index'.byName.map Prod.fst).Nodup := by
  induction l generalizing index with
  | nil =>
    cases h
    exact hnodup
  | cons m l ih =>
    rw [List.foldlM_cons] at h
    obtain ⟨next, hadd, h⟩ := Option.bind_eq_some_iff.mp h
    refine ih h ?_
    rw [add?] at hadd
    split at hadd
    · obtain ⟨key, -, rfl⟩ := Option.map_eq_some_iff.mp hadd
      exact nodup_offer hnodup key m.2
    · cases hadd
      exact hnodup

/-- A name is listed exactly when the kept entry is a type that is defined. -/
theorem mem_listed_iff (h : ofUnits? units = some index) (key : String) :
    key ∈ index.listed ↔ ∃ w, index.byName.get? key = some w ∧ w.tag.isListed = true ∧
      w.isDeclaration = false := by
  have hnodup := nodup_foldlM h List.nodup_nil
  simp only [listed, List.mem_mergeSort, List.mem_map, List.mem_filter]
  constructor
  · rintro ⟨⟨_, w⟩, ⟨hmem, hw⟩, rfl⟩
    exact ⟨w, Assoc.get?_of_mem hnodup hmem, by simpa using hw⟩
  · rintro ⟨w, hw, hlisted, hdefined⟩
    exact ⟨(key, w), ⟨Assoc.mem_of_get? hw, by simp [hlisted, hdefined]⟩, rfl⟩

/-- Each listed name stands once, and in order. -/
theorem pairwise_listed (h : ofUnits? units = some index) :
    index.listed.Pairwise fun a b => a < b := by
  have hnodup := nodup_foldlM h List.nodup_nil
  have hnames := hnodup.sublist ((List.filter_sublist
    (p := fun e => e.2.tag.isListed && !e.2.isDeclaration)).map Prod.fst)
  exact @pairwise_lt_mergeSort String id _ (by rwa [List.map_id])

/-- The index of any units. The walk meets the entries that stand below the tops of units, each
once, in the order of the trees; they are indexed exactly when their names can be written. Then a
key leads to the first of those that tell most among the entries with this key, which is no
declaration if one of them is none; the names listed are those that lead to a type that is defined;
and every named entry is indexed under the names around it, which are remembered for its offset
where no other entry has that. -/
theorem ofUnits?_correct (units : List Entry) :
    (∀ scope e, (scope, e) ∈ met units ↔ Found units scope e) ∧
    ((met units).map Prod.snd).Sublist (Entry.listings units) ∧
    ((ofUnits? units).isSome ↔ ∀ scope e, Found units scope e → isNamed e = true →
      (TypeName.nameKey? (qualify scope e)).isSome) ∧
    ∀ index, ofUnits? units = some index →
      (∀ key w, index.byName.get? key = some w ↔ IsBest (sharing key (met units)) w) ∧
      (∀ key w, index.byName.get? key = some w →
        (∃ d ∈ sharing key (met units), d.isDeclaration = false) → w.isDeclaration = false) ∧
      (∀ key, key ∈ index.listed ↔ ∃ w, index.byName.get? key = some w ∧
        w.tag.isListed = true ∧ w.isDeclaration = false) ∧
      (index.listed.Pairwise fun a b => a < b) ∧
      ∀ scope e, Found units scope e → isNamed e = true →
        ∃ key w, TypeName.nameKey? (qualify scope e) = some key ∧
          index.byName.get? key = some w ∧ e ∈ sharing key (met units) ∧
          (Entry.Placed units → index.qualified.get? e.offset = some (qualify scope e)) := by
  refine ⟨fun _ _ => mem_met_iff, met_sublist units, ?_, fun index h => ⟨?_, ?_, ?_, ?_, ?_⟩⟩
  · rw [ofUnits?, isSome_foldlM]
    simp only [Prod.forall, mem_met_iff]
  · exact get?_byName_iff h
  · rintro key w hw ⟨d, hd, hdefined⟩
    have hbest := (get?_byName_iff h key w).mp hw
    exact Entry.isDeclaration_of_score_le hdefined (hbest.score_le hd)
  · exact mem_listed_iff h
  · exact pairwise_listed h
  · intro scope e hfound hnamed
    have hmet : (scope, e) ∈ met units := mem_met_iff.mpr hfound
    have hwritable := (isSome_foldlM _ _).mp (Option.isSome_of_eq_some h) _ hmet hnamed
    obtain ⟨key, hkey⟩ := Option.isSome_iff_exists.mp hwritable
    have hshared : e ∈ sharing key (met units) := mem_sharing.mpr ⟨scope, hmet, hnamed, hkey⟩
    obtain ⟨w, hw, -⟩ := byName_ofUnits? h (List.ne_nil_of_mem hshared)
    exact ⟨key, w, hkey, hw, hshared, fun hplaced =>
      (qualified_ofUnits? h hplaced hmet hnamed).1⟩

/-- An enumeration. -/
def hostMode : Entry :=
  .mk 15 .enumerationType [(.name, .text "Mode"), (.byteSize, .integer 4)] []

/-- An aggregate without a name, around it. -/
def hostPart : Entry := .mk 14 .structureType [(.byteSize, .integer 4)] [hostMode]

/-- The structure around that, as it is declared. -/
def hostDeclared : Entry :=
  .mk 12 .structureType [(.name, .text "Host"), (.declaration, .flag true)] []

/-- The same structure as it is defined. -/
def hostDefined : Entry :=
  .mk 13 .structureType [(.name, .text "Host"), (.byteSize, .integer 4)] [hostPart]

/-- A unit with both in a namespace without a name. -/
def hosting : List Entry :=
  [.mk 10 (.other "compile_unit") [] [.mk 11 .scope [] [hostDeclared, hostDefined]]]

theorem ofUnits?_correct_hosting :
    ∃ index, ofUnits? hosting = some index ∧
      (∃ w, index.byName.get? "(anonymous namespace)::Host" = some w ∧ w.isDeclaration = false) ∧
      (index.byName.get? "(anonymous namespace)::Host::Mode").isSome ∧
      index.qualified.get? 15 = some "(anonymous namespace)::Host::Mode" := by
  obtain ⟨-, -, -, hcorrect⟩ := ofUnits?_correct hosting
  have hsome : (ofUnits? hosting).isSome = true := by decide +kernel
  obtain ⟨index, hindex⟩ := Option.isSome_iff_exists.mp hsome
  obtain ⟨-, hdefined, -, -, hfound⟩ := hcorrect index hindex
  have hplaced : Entry.Placed hosting := ⟨by decide, by decide⟩
  have hhost : Stands [] [.mk 11 .scope [] [hostDeclared, hostDefined]]
      ["(anonymous namespace)"] hostDefined :=
    .inNamespace (.top (.head _)) rfl (.tail _ (.head _))
  have hmode : Found hosting ["(anonymous namespace)", "Host"] hostMode := by
    refine ⟨_, .head _, .inUnnamed (e := hostPart) ?_ rfl rfl (.head _)⟩
    exact .inAggregate hhost rfl (by decide) (.head _)
  obtain ⟨key, w, hkey, hw, hshared, -⟩ := hfound _ _ ⟨_, .head _, hhost⟩ rfl
  obtain ⟨key', w', hkey', hw', -, hqualified⟩ := hfound _ _ hmode rfl
  have hhostKey : TypeName.nameKey? "(anonymous namespace)::Host" =
      some "(anonymous namespace)::Host" := by decide +kernel
  have hmodeKey : TypeName.nameKey? "(anonymous namespace)::Host::Mode" =
      some "(anonymous namespace)::Host::Mode" := by decide +kernel
  obtain rfl := Option.some.inj (hkey.symm.trans hhostKey)
  obtain rfl := Option.some.inj (hkey'.symm.trans hmodeKey)
  refine ⟨index, hindex, ⟨w, hw, hdefined _ w hw ⟨_, hshared, rfl⟩⟩, ?_, hqualified hplaced⟩
  rw [hw']
  rfl

end Index

end NativeTypes.Dwarf
