/-
NativeTypes.Proofs.Instance.Undefined — an instance contains an undefined one
exactly if it reaches one by value.

The walk by value meets whatever is embedded, at any depth, and nothing else
(`mem_visits_valueStack_iff`), so it meets an undefined instance if there is
one to meet. It never looks at references: instances that differ in where
they point, in their signature or in the arguments of their template embed
the same (`Instance.RefersElsewhere`), so a graph in which such references
are replaced gives the same answer. Nothing is needed about cycles or about
how far aggregates are settled.
-/
import NativeTypes.Proofs.Instance.Walk

namespace NativeTypes

/-! ## 1. Other references -/

namespace Instance

/-- The same instance, but for what it only refers to: where a pointer leads, the signature of a
function, the arguments of a template. -/
inductive RefersElsewhere : Instance → Instance → Prop
  | same (i : Instance) : RefersElsewhere i i
  | target (target target' : Handle) (size : Int) :
    RefersElsewhere (.pointer target size) (.pointer target' size)
  | signature (f f' : FunctionType) : RefersElsewhere (.function f) (.function f')
  | arguments (a : Aggregate) (template : Option TemplateUse) :
    RefersElsewhere (.aggregate a) (.aggregate { a with template })

variable {i i' : Instance}

theorem RefersElsewhere.valueParts (h : RefersElsewhere i i') : i'.valueParts = i.valueParts := by
  cases h with
  | same => rfl
  | target => rfl
  | signature => rfl
  | arguments => rfl

theorem RefersElsewhere.isUndefined (h : RefersElsewhere i i') :
    i'.isUndefined = i.isUndefined := by
  cases h with
  | same => rfl
  | target => rfl
  | signature => rfl
  | arguments => rfl

end Instance

namespace Graph

/-! ## 2. What is embedded -/

variable {g g' : Graph} {x y : Handle}

/-- `y` is embedded in `x` by value, at any depth, or is `x` itself. -/
abbrev Reaches (g : Graph) : Handle → Handle → Prop := Relation.ReflTransGen g.Embeds

/-- Where parts are in the graph, so is all that is reached. -/
theorem Reaches.lt_count (hvalues : ∀ h, ∀ v ∈ (g.get h).valueParts, v < g.count)
    (hx : x < g.count) (h : g.Reaches x y) : y < g.count := by
  induction h with
  | refl => exact hx
  | @tail u y _ hstep _ => exact hvalues u y hstep

/-- The walk by value meets what is reached, if that is in the graph. -/
theorem mem_visits_valueStack_iff (hinside : ∀ u, g.Reaches x u → u < g.count) :
    y ∈ visits g.valueStack g.handles [x] ↔ g.Reaches x y := by
  constructor
  · intro hy
    obtain ⟨u, hu, hpath⟩ := exists_next_of_mem_visits hy
    rw [List.mem_singleton.mp hu] at hpath
    exact hpath.lift id fun _ _ hstep => List.mem_reverse.mp hstep
  · intro hpath
    have hunseen : ∀ u, g.Reaches x u → u ∈ g.handles := fun u hu =>
      List.mem_range.mpr (hinside u hu)
    induction hpath with
    | refl => exact mem_visits_of_mem_stack _ _ _ (List.mem_singleton_self x) (hunseen x .refl)
    | @tail u w hu hstep ih =>
      exact mem_visits_of_mem_next _ _ _ ih (List.mem_reverse.mpr hstep)
        (hunseen w (hu.tail hstep))

theorem containsUndefined_iff (hinside : ∀ u, g.Reaches x u → u < g.count) :
    g.containsUndefined x = true ↔ ∃ y, g.Reaches x y ∧ (g.get y).isUndefined = true := by
  simp only [containsUndefined, List.any_eq_true, mem_visits_valueStack_iff hinside]

/-! ## 3. Undefined instances -/

section

variable (hinside : ∀ u, g.Reaches x u → u < g.count)
  (halike : ∀ h < g.count, (g.get h).RefersElsewhere (g'.get h))
include hinside halike

/-- Other references do not change what is reached. -/
theorem reaches_iff_of_refersElsewhere : g'.Reaches x y ↔ g.Reaches x y := by
  have hstep : ∀ u, g.Reaches x u → ∀ w, g'.Embeds u w ↔ g.Embeds u w := fun u hu w => by
    rw [Embeds, Embeds, (halike u (hinside u hu)).valueParts]
  constructor
  · intro hpath
    induction hpath with
    | refl => exact .refl
    | tail _ hlast ih => exact ih.tail ((hstep _ ih _).mp hlast)
  · intro hpath
    induction hpath with
    | refl => exact .refl
    | tail hu hlast ih => exact ih.tail ((hstep _ hu _).mpr hlast)

theorem containsUndefined_of_refersElsewhere (hcount : g.count ≤ g'.count) :
    g'.containsUndefined x = g.containsUndefined x := by
  have hreaches : ∀ y, g'.Reaches x y ↔ g.Reaches x y := fun y =>
    reaches_iff_of_refersElsewhere hinside halike
  have hinside' : ∀ u, g'.Reaches x u → u < g'.count := fun u hu =>
    Nat.lt_of_lt_of_le (hinside u ((hreaches u).mp hu)) hcount
  rw [Bool.eq_iff_iff, containsUndefined_iff hinside', containsUndefined_iff hinside]
  refine exists_congr fun y => ?_
  rw [hreaches y]
  refine and_congr_right fun hy => ?_
  rw [(halike y (hinside y hy)).isUndefined]

end

/-- **An instance contains an undefined one exactly if it reaches one by value**, whatever pointers
lead to, functions are about and templates are made with. -/
theorem containsUndefined_correct {g : Graph} {x : Handle}
    (hvalues : ∀ h, ∀ v ∈ (g.get h).valueParts, v < g.count) (hx : x < g.count) :
    (g.containsUndefined x = true ↔ ∃ y, g.Reaches x y ∧ (g.get y).isUndefined = true) ∧
      ∀ g' : Graph, g.count ≤ g'.count →
        (∀ h < g.count, (g.get h).RefersElsewhere (g'.get h)) →
        g'.containsUndefined x = g.containsUndefined x := by
  have hinside : ∀ u, g.Reaches x u → u < g.count := fun u hu => hu.lt_count hvalues hx
  exact ⟨containsUndefined_iff hinside, fun g' hcount halike =>
    containsUndefined_of_refersElsewhere hinside halike hcount⟩

/-- A node that points to the next one and embeds two unknown items. -/
def unknownItems : Graph :=
  ⟨#[.aggregate { name := "Node", fields := [⟨"next", 1, 0, none, none, false⟩,
       ⟨"items", 2, 8, none, none, false⟩] },
     .pointer 0 8, .array 3 (some 2), .undefined "Item"]⟩

/-- The node contains an undefined type, whatever its pointer leads to. -/
theorem containsUndefined_unknownItems :
    (∀ h, ∀ v ∈ (unknownItems.get h).valueParts, v < unknownItems.count) ∧
      0 < unknownItems.count ∧ unknownItems.containsUndefined 0 = true ∧
      (unknownItems.set 1 (.pointer 2 8)).containsUndefined 0 = true := by
  have hvalues : ∀ h, ∀ v ∈ (unknownItems.get h).valueParts, v < unknownItems.count := by
    intro h
    by_cases hh : h < 4
    · revert h
      decide
    · rw [get_of_count_le (Nat.le_of_not_lt hh)]
      intro v hv
      cases hv
  obtain ⟨hiff, helsewhere⟩ := containsUndefined_correct hvalues (x := 0) (by decide)
  have harray : unknownItems.Embeds 0 2 := List.mem_cons_of_mem _ List.mem_cons_self
  have hitem : unknownItems.Embeds 2 3 := List.mem_cons_self
  have hitems : unknownItems.Reaches 0 3 := .tail (.single harray) hitem
  have hnode : unknownItems.containsUndefined 0 = true := hiff.mpr ⟨3, hitems, rfl⟩
  refine ⟨hvalues, by decide, hnode, ?_⟩
  rw [helsewhere (unknownItems.set 1 (.pointer 2 8)) (by decide) fun h hh => ?_]
  · exact hnode
  · rw [get_set (by decide)]
    split
    · rename_i he
      rw [he]
      exact .target 0 2 8
    · exact .same _

end Graph

end NativeTypes
