/-
NativeTypes.Proofs.Resolver.Layout — the rule for layouts, and what the check
of a layout looks at.

`Misfit` is the rule, part by part, and `Graph.isSome_layoutFault?` says that
the check finds something exactly when a part breaks it. What the check looks
at does not change while aggregates are defined (`Steady`): the sizes and names
of aggregates are there from the start, and all other instances stay as they
are. So what was found about parts that are there is found again at any later
time (`Steady.layoutFault?`).

The check stops at the first fault and says what is wrong in words; the rule
names no first one and has no words. Both are needed: a mark shows the words of
the first fault, and whether there is a mark at all is said by the rule.
-/
import Mathlib.Data.List.Basic
import NativeTypes.Resolver.Layout

namespace NativeTypes

/-! ## 1. The rule -/

/-- A part of the aggregate does not fit: a base begins before or behind the aggregate, a field
begins before it or not inside it (only an array without length, or of length zero, may begin at
the end), or a bit-field is empty, begins before its storage or ends behind it. -/
inductive Misfit (g : Graph) (a : Aggregate) : Prop
  | base (b : BasePart) : b ∈ a.bases →
      b.offset < 0 ∨ (∃ n, a.size = some n ∧ n < b.offset) → Misfit g a
  | field (f : FieldPart) : f ∈ a.fields →
      f.offset < 0 ∨ (∃ n, a.size = some n ∧ n ≤ f.offset ∧
        ¬(f.offset = n ∧ g.isFlexible f.type = true)) → Misfit g a
  | bits (f : FieldPart) (width : Int) : f ∈ a.fields → f.bitWidth = some width →
      width ≤ 0 ∨ f.bitOffset.getD 0 < 0 ∨ g.bitLimit f.type < f.bitOffset.getD 0 + width →
      Misfit g a

namespace Graph

theorem baseFits_eq_false_iff (size : Option Int) (offset : Int) :
    baseFits size offset = false ↔ offset < 0 ∨ ∃ n, size = some n ∧ n < offset := by
  cases size with
  | none => simp [baseFits]
  | some n =>
    simp only [baseFits, Option.all_some, Bool.and_eq_false_iff, decide_eq_false_iff_not,
      Option.some.injEq, exists_eq_left']
    omega

theorem fieldFits_eq_false_iff (size : Option Int) (flexible : Bool) (offset : Int) :
    fieldFits size flexible offset = false ↔
      offset < 0 ∨ ∃ n, size = some n ∧ n ≤ offset ∧ ¬(offset = n ∧ flexible = true) := by
  cases size with
  | none => simp [fieldFits]
  | some n =>
    cases flexible with
    | false =>
      simp [fieldFits]
      omega
    | true =>
      simp [fieldFits]
      omega

theorem bitsFit_eq_false_iff (limit offset width : Int) :
    bitsFit limit offset width = false ↔ width ≤ 0 ∨ offset < 0 ∨ limit < offset + width := by
  simp only [bitsFit, Bool.and_eq_false_iff, decide_eq_false_iff_not]
  omega

theorem isSome_baseFault? (g : Graph) (size : Option Int) (b : BasePart) :
    (g.baseFault? size b).isSome = true ↔
      b.offset < 0 ∨ ∃ n, size = some n ∧ n < b.offset := by
  rw [← baseFits_eq_false_iff, baseFault?]
  cases baseFits size b.offset <;> simp

theorem isSome_fieldFault? (g : Graph) (size : Option Int) (f : FieldPart) :
    (g.fieldFault? size f).isSome = true ↔
      (f.offset < 0 ∨ ∃ n, size = some n ∧ n ≤ f.offset ∧
        ¬(f.offset = n ∧ g.isFlexible f.type = true)) ∨
      ∃ width, f.bitWidth = some width ∧
        (width ≤ 0 ∨ f.bitOffset.getD 0 < 0 ∨ g.bitLimit f.type < f.bitOffset.getD 0 + width) := by
  simp only [← fieldFits_eq_false_iff, ← bitsFit_eq_false_iff, fieldFault?]
  cases fieldFits size (g.isFlexible f.type) f.offset with
  | false => simp
  | true =>
    cases f.bitWidth with
    | none => simp
    | some width =>
      cases hfits : bitsFit (g.bitLimit f.type) (f.bitOffset.getD 0) width <;> simp [hfits]

/-- **The check finds a fault exactly when a part does not fit.** -/
theorem isSome_layoutFault? (g : Graph) (a : Aggregate) :
    (g.layoutFault? a).isSome = true ↔ Misfit g a := by
  rw [layoutFault?, Option.isSome_or, Bool.or_eq_true, List.isSome_findSome?,
    List.isSome_findSome?, List.any_eq_true, List.any_eq_true]
  constructor
  · rintro (⟨b, hb, hfault⟩ | ⟨f, hf, hfault⟩)
    · exact .base b hb ((isSome_baseFault? g a.size b).mp hfault)
    · rcases (isSome_fieldFault? g a.size f).mp hfault with hplace | ⟨width, hwidth, hbits⟩
      · exact .field f hf hplace
      · exact .bits f width hf hwidth hbits
  · rintro (⟨b, hb, hplace⟩ | ⟨f, hf, hplace⟩ | ⟨f, width, hf, hwidth, hbits⟩)
    · exact .inl ⟨b, hb, (isSome_baseFault? g a.size b).mpr hplace⟩
    · exact .inr ⟨f, hf, (isSome_fieldFault? g a.size f).mpr (.inl hplace)⟩
    · exact .inr ⟨f, hf, (isSome_fieldFault? g a.size f).mpr (.inr ⟨width, hwidth, hbits⟩)⟩

end Graph

/-! ## 2. What the check looks at -/

/-- The aggregates have the same name and the same size. -/
def SameFace (a a' : Aggregate) : Prop :=
  a'.name = a.name ∧ a'.scope = a.scope ∧ a'.size = a.size

/-- Instances stay, but for the parts and the stage of aggregates. -/
structure Steady (g g' : Graph) : Prop where
  count : g.count ≤ g'.count
  other : ∀ h, h < g.count → (∀ a, g.get h ≠ .aggregate a) → g'.get h = g.get h
  aggregate : ∀ h a, g.get h = .aggregate a → ∃ a', g'.get h = .aggregate a' ∧ SameFace a a'

namespace Steady

variable {g g' g'' : Graph}

theorem refl (g : Graph) : Steady g g :=
  ⟨Nat.le_refl _, fun _ _ _ => rfl, fun _ a ha => ⟨a, ha, rfl, rfl, rfl⟩⟩

theorem trans (h : Steady g g') (h' : Steady g' g'') : Steady g g'' where
  count := Nat.le_trans h.count h'.count
  other := fun x hx ha => by
    have hsame := h.other x hx ha
    rw [h'.other x (Nat.lt_of_lt_of_le hx h.count) (hsame ▸ ha), hsame]
  aggregate := fun x a ha => by
    obtain ⟨b, hb, hname, hscope, hsize⟩ := h.aggregate x a ha
    obtain ⟨c, hc, hname', hscope', hsize'⟩ := h'.aggregate x b hb
    exact ⟨c, hc, hname'.trans hname, hscope'.trans hscope, hsize'.trans hsize⟩

variable (hg : Steady g g')
include hg

/-- By induction on the handle: an element is older than its array. -/
theorem byteSize {h : Handle} (hh : h < g.count) : g'.byteSize h = g.byteSize h := by
  induction h using Nat.strongRecOn with
  | ind h ih =>
    cases hget : g.get h with
    | aggregate a =>
      obtain ⟨a', ha', -, -, hsize⟩ := hg.aggregate h a hget
      rw [Graph.byteSize, Graph.byteSize, hget, ha']
      exact hsize
    | array element length =>
      have hget' := hg.other h hh (by simp [hget])
      rw [Graph.byteSize, Graph.byteSize, hget', hget]
      cases length with
      | none => rfl
      | some n =>
        by_cases hlt : element < h
        · simp only [if_pos hlt, ih element hlt (Nat.lt_trans hlt hh)]
        · simp only [if_neg hlt]
    | enumeration e =>
      have hget' := hg.other h hh (by simp [hget])
      rw [Graph.byteSize, Graph.byteSize, hget', hget]
      by_cases hlt : e.underlying < h
      · simp only [if_pos hlt, ih e.underlying hlt (Nat.lt_trans hlt hh)]
      · simp only [if_neg hlt]
    | _ =>
      have hget' := hg.other h hh (by simp [hget])
      rw [Graph.byteSize, Graph.byteSize, hget', hget]

/-- Likewise. -/
theorem displayName {h : Handle} (hh : h < g.count) : g'.displayName h = g.displayName h := by
  induction h using Nat.strongRecOn with
  | ind h ih =>
    have hbelow : ∀ x, (if x < h then g'.displayName x else "") =
        if x < h then g.displayName x else "" := by
      intro x
      by_cases hlt : x < h
      · rw [if_pos hlt, if_pos hlt, ih x hlt (Nat.lt_trans hlt hh)]
      · rw [if_neg hlt, if_neg hlt]
    cases hget : g.get h with
    | aggregate a =>
      obtain ⟨a', ha', hname, hscope, -⟩ := hg.aggregate h a hget
      rw [Graph.displayName, Graph.displayName, hget, ha']
      simp only [Aggregate.qualifiedName, hname, hscope]
    | pointer _ _ | array _ _ | function _ =>
      have hget' := hg.other h hh (by simp [hget])
      rw [Graph.displayName, Graph.displayName, hget', hget]
      simp only [hbelow]
    | _ =>
      have hget' := hg.other h hh (by simp [hget])
      rw [Graph.displayName, Graph.displayName, hget', hget]

theorem isFlexible {h : Handle} (hh : h < g.count) : g'.isFlexible h = g.isFlexible h := by
  cases hget : g.get h with
  | aggregate a =>
    obtain ⟨a', ha', -⟩ := hg.aggregate h a hget
    rw [Graph.isFlexible, Graph.isFlexible, hget, ha']
  | _ => rw [Graph.isFlexible, Graph.isFlexible, hg.other h hh (by simp [hget])]

theorem bitLimit {h : Handle} (hh : h < g.count) : g'.bitLimit h = g.bitLimit h := by
  rw [Graph.bitLimit, Graph.bitLimit, hg.byteSize hh]

/-- What the check says of parts that are there it says for good. -/
theorem layoutFault? {a : Aggregate}
    (hparts : ∀ p ∈ (Instance.aggregate a).valueParts, p < g.count) :
    g'.layoutFault? a = g.layoutFault? a := by
  have hbases : a.bases.findSome? (g'.baseFault? a.size) =
      a.bases.findSome? (g.baseFault? a.size) := by
    rw [← List.head?_filterMap, ← List.head?_filterMap]
    refine congrArg List.head? (List.filterMap_congr fun b hb => ?_)
    have hlt := hparts b.type (List.mem_append_left _ (List.mem_map_of_mem hb))
    simp only [Graph.baseFault?, hg.displayName hlt]
  have hfields : a.fields.findSome? (g'.fieldFault? a.size) =
      a.fields.findSome? (g.fieldFault? a.size) := by
    rw [← List.head?_filterMap, ← List.head?_filterMap]
    refine congrArg List.head? (List.filterMap_congr fun f hf => ?_)
    have hlt := hparts f.type (List.mem_append_right _ (List.mem_map_of_mem hf))
    simp only [Graph.fieldFault?, hg.isFlexible hlt, hg.bitLimit hlt]
  rw [Graph.layoutFault?, Graph.layoutFault?, hbases, hfields]

end Steady

end NativeTypes
