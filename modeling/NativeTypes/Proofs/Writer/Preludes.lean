/-
NativeTypes.Proofs.Writer.Preludes — the statements of packed structures and
their order.

A module is all preludes, section by section, and then all member lists. A
prelude binds the identifier of its declaration, and only those of function
types evaluate anything (`Declaration.function_of_mem_uses`). Preludes of an
earlier section come first (`mem_before_of_section`); those of one section
stand in the order of the declarations (`mem_before_iff`).
-/
import NativeTypes.Proofs.Resolver.Reported
import NativeTypes.Proofs.Writer.Declared
import NativeTypes.Proofs.Writer.Evaluates

namespace NativeTypes

/-! ## 1. Places in a list -/

/-- In a list that is put together of two, an element is in the first one, or in the second one
and behind all of the first. -/
theorem mem_of_append_eq {α : Type} {a : α} {first second before after : List α}
    (h : first ++ second = before ++ a :: after) :
    (∃ rest, first = before ++ a :: rest) ∨ (a ∈ second ∧ first ⊆ before) := by
  rcases List.append_eq_append_iff.mp h with ⟨mid, rfl, hsecond⟩ | ⟨mid, rfl, hrest⟩
  · exact .inr ⟨by simp [hsecond], List.subset_append_left _ _⟩
  · cases mid with
    | nil =>
      rw [List.nil_append] at hrest
      exact .inr ⟨hrest ▸ List.mem_cons_self, by simp⟩
    | cons b mid =>
      obtain ⟨rfl, -⟩ := List.cons.inj hrest
      exact .inl ⟨mid, rfl⟩

/-- What stands before an element that is kept comes from before it. -/
theorem exists_of_filterMap_eq_append {α β : Type} {f : α → Option β} {l : List α} {b : β}
    {before after : List β} (h : l.filterMap f = before ++ b :: after) :
    ∃ l₁ a l₂, l = l₁ ++ a :: l₂ ∧ f a = some b ∧ l₁.filterMap f = before := by
  obtain ⟨l₁, l₂, rfl, rfl, hl₂⟩ := List.filterMap_eq_append_iff.mp h
  obtain ⟨skipped, a, rest, rfl, hskipped, ha, -⟩ := List.filterMap_eq_cons_iff.mp hl₂
  refine ⟨l₁ ++ skipped, a, rest, by simp, ha, ?_⟩
  rw [List.filterMap_append, List.filterMap_eq_nil_iff.mpr hskipped, List.append_nil]

namespace Ctypes

variable {g : Graph} {names : NameTable} {members : MemberNames} {order : List Handle}
  {fragments : List Fragment}

/-! ## 2. Statements -/

/-- One of the statements binds the identifier. -/
def Binds (statements : List Statement) (ident : String) : Prop :=
  ∃ st ∈ statements, st.binds = some ident

/-- Every declaration is rendered, in an order. -/
def Rendered (g : Graph) (names : NameTable) (members : MemberNames) :
    List Handle → List Fragment → Prop :=
  List.Forall₂ fun h f => declare g names members h = .ok f

theorem Rendered.map_handle (hr : Rendered g names members order fragments) :
    fragments.map Fragment.handle = order := by
  induction hr with
  | nil => rfl
  | cons hdeclare _ ih =>
    rw [List.map_cons, ih, (keepsNames {} _ _ _ _ _ hdeclare).1]

theorem Rendered.identifier (hr : Rendered g names members order fragments) {f : Fragment}
    (hf : f ∈ fragments) : names.get? f.handle = some f.identifier := by
  obtain ⟨h, -, hdeclare⟩ := Resolver.exists_of_mem_forall₂ hr.flip hf
  obtain ⟨rfl, hname⟩ := keepsNames {} _ _ _ _ _ hdeclare
  exact hname

theorem Rendered.declaration (hr : Rendered g names members order fragments) {f : Fragment}
    (hf : f ∈ fragments) : Declaration g names members f.handle f := by
  obtain ⟨h, -, hdeclare⟩ := Resolver.exists_of_mem_forall₂ hr.flip hf
  rw [(keepsNames {} _ _ _ _ _ hdeclare).1]
  exact declaration_of_declare hdeclare

/-- The prelude of a declaration binds its identifier. -/
theorem Declaration.exists_prelude {h : Handle} {f : Fragment}
    (hf : Declaration g names members h f) :
    ∃ st ident, f.prelude = some st ∧ st.binds = some ident ∧ names.get? h = some ident := by
  cases hf with
  | aggregate _ hname _ => exact ⟨_, _, rfl, rfl, hname⟩
  | enumeration _ hname _ => exact ⟨_, _, rfl, rfl, hname⟩
  | function _ hname => exact ⟨_, _, rfl, rfl, hname⟩

theorem mem_preludeOrder {f : Fragment} : f ∈ preludeOrder g fragments ↔ f ∈ fragments :=
  List.mem_mergeSort

/-- A prelude that evaluates something is that of a function type. -/
theorem Declaration.function_of_mem_uses {h : Handle} {f : Fragment} {st : Statement}
    {ident : String} (hf : Declaration g names members h f) (hst : f.prelude = some st)
    (hident : ident ∈ st.uses) : ∃ t, g.get h = .function t ∧ names.get? h = st.binds ∧
      ident ∈ (signature g names t).flatMap TypeExpression.uses := by
  cases hf with
  | aggregate _ _ _ =>
    cases hst
    cases hident
  | enumeration _ _ _ =>
    cases hst
    cases hident
  | function hget hname =>
    cases hst
    exact ⟨_, hget, hname, hident⟩

/-- The prelude of a function type evaluates its signature. -/
theorem Declaration.uses_of_function {h : Handle} {f : Fragment} {st : Statement}
    {t : FunctionType} (hf : Declaration g names members h f) (hst : f.prelude = some st)
    (hget : g.get h = .function t) :
    st.uses = (signature g names t).flatMap TypeExpression.uses := by
  cases hf with
  | aggregate hget' _ _ => cases hget.symm.trans hget'
  | enumeration hget' _ _ => cases hget.symm.trans hget'
  | function hget' _ =>
    cases hget.symm.trans hget'
    cases hst
    rfl

/-- A member list evaluates identifiers that were given. -/
theorem Declaration.exists_of_mem_body {h : Handle} {f : Fragment} {st : Statement}
    {ident : String} (hf : Declaration g names members h f) (hst : f.body = some st)
    (hident : ident ∈ st.uses) : ∃ y, names.get? y = some ident := by
  cases hf with
  | @aggregate a _ _ _ hname _ =>
    cases hst
    rcases List.mem_cons.mp hident with rfl | hident
    · exact ⟨h, hname⟩
    · obtain ⟨entry, hentry, hident⟩ := List.mem_flatMap.mp hident
      exact layoutAs_given g _ a entry hentry ident hident
  | enumeration _ _ _ => cases hst
  | function _ _ => cases hst

theorem Declaration.binds_body {h : Handle} {f : Fragment} {st : Statement}
    (hf : Declaration g names members h f) (hst : f.body = some st) : st.binds = none := by
  cases hf with
  | aggregate _ _ _ =>
    cases hst
    rfl
  | enumeration _ _ _ => cases hst
  | function _ _ => cases hst

/-- Of whatever has an identifier, the prelude is there. -/
theorem Rendered.exists_fragment (hr : Rendered g names members order fragments) {y : Handle}
    (hy : y ∈ order) {ident : String} (hname : names.get? y = some ident) :
    ∃ f ∈ fragments, f.handle = y ∧ ∃ st, f.prelude = some st ∧ st.binds = some ident := by
  rw [← hr.map_handle] at hy
  obtain ⟨f, hf, rfl⟩ := List.mem_map.mp hy
  obtain ⟨st, ident', hst, hbinds, hname'⟩ := (hr.declaration hf).exists_prelude
  rw [hname] at hname'
  cases hname'
  exact ⟨f, hf, rfl, st, hst, hbinds⟩

theorem Rendered.binds_preludes (hr : Rendered g names members order fragments) {y : Handle}
    (hy : y ∈ order) {ident : String} (hname : names.get? y = some ident) :
    Binds ((preludeOrder g fragments).filterMap Fragment.prelude) ident := by
  obtain ⟨f, hf, -, st, hst, hbinds⟩ := hr.exists_fragment hy hname
  exact ⟨st, List.mem_filterMap.mpr ⟨f, mem_preludeOrder.mpr hf, hst⟩, hbinds⟩

/-! ## 3. The order of preludes -/

theorem nodup_preludeOrder (hr : Rendered g names members order fragments)
    (hnodup : order.Nodup) : (preludeOrder g fragments).Nodup := by
  refine (List.mergeSort_perm _ _).nodup_iff.mpr (List.Nodup.of_map Fragment.handle ?_)
  rwa [hr.map_handle]

/-- Preludes of an earlier section come first. -/
theorem mem_before_of_section {before after : List Fragment} {f f' : Fragment}
    (hsplit : preludeOrder g fragments = before ++ f :: after) (hf' : f' ∈ fragments)
    (hsection : sectionOf (g.get f'.handle) < sectionOf (g.get f.handle)) : f' ∈ before := by
  have hmem : f' ∈ preludeOrder g fragments := mem_preludeOrder.mpr hf'
  have hsorted : (preludeOrder g fragments).Pairwise fun a b =>
      sectionOf (g.get a.handle) ≤ sectionOf (g.get b.handle) := by
    have := @List.pairwise_mergeSort _
      (fun a b => decide (sectionOf (g.get a.handle) ≤ sectionOf (g.get b.handle)))
      (fun a b c hab hbc => by simp at *; omega) (fun a b => by simp; omega) fragments
    simpa [preludeOrder] using this
  rw [hsplit] at hmem hsorted
  rcases List.mem_append.mp hmem with hbefore | hrest
  · exact hbefore
  · exfalso
    rcases List.mem_cons.mp hrest with rfl | hafter
    · exact Nat.lt_irrefl _ hsection
    · have hle := (List.pairwise_cons.mp (List.pairwise_append.mp hsorted).2.1).1 f' hafter
      omega

/-- In one section fragments stay in the order that they had. -/
theorem pair_sublist_preludeOrder {f f' : Fragment}
    (hsection : sectionOf (g.get f.handle) ≤ sectionOf (g.get f'.handle))
    (hsub : [f, f'].Sublist fragments) : [f, f'].Sublist (preludeOrder g fragments) :=
  List.pair_sublist_mergeSort (fun a b c hab hbc => by simp at *; omega)
    (fun a b => by simp; omega) (by simpa using hsection) hsub

/-- The fragments of two declarations stand in their order. -/
theorem Rendered.pair_sublist_iff (hr : Rendered g names members order fragments)
    (hnodup : order.Nodup) {f f' : Fragment} (hf : f ∈ fragments) (hf' : f' ∈ fragments) :
    [f, f'].Sublist fragments ↔ [f.handle, f'.handle].Sublist order := by
  rw [← hr.map_handle] at hnodup ⊢
  refine ⟨fun hsub => hsub.map Fragment.handle, fun hsub => ?_⟩
  obtain ⟨fs, hfs, heq⟩ := List.sublist_map_iff.mp hsub
  have hinj : ∀ a ∈ fragments, ∀ b ∈ fragments, a.handle = b.handle → a = b :=
    fun a ha b hb => List.inj_on_of_nodup_map hnodup ha hb
  obtain ⟨a, fs, rfl, ha, hrest⟩ := List.map_eq_cons_iff.mp heq.symm
  obtain ⟨b, fs, rfl, hb, hnil⟩ := List.map_eq_cons_iff.mp hrest
  cases List.map_eq_nil_iff.mp hnil
  rw [hinj f hf a (hfs.subset (by simp)) ha.symm, hinj f' hf' b (hfs.subset (by simp)) hb.symm]
  exact hfs

/-- **Preludes of one section stand in the order of declarations.** -/
theorem mem_before_iff (hr : Rendered g names members order fragments) (hnodup : order.Nodup)
    {before after : List Fragment} {f f' : Fragment}
    (hsplit : preludeOrder g fragments = before ++ f :: after) (hf' : f' ∈ fragments)
    (hsection : sectionOf (g.get f'.handle) = sectionOf (g.get f.handle)) :
    f' ∈ before ↔ [f'.handle, f.handle].Sublist order := by
  have hf : f ∈ fragments := by
    rw [← mem_preludeOrder (g := g), hsplit]
    simp
  have hnodup' := nodup_preludeOrder hr hnodup
  rw [← hr.pair_sublist_iff hnodup hf' hf]
  constructor
  · intro hbefore
    have hsub : [f', f].Sublist (preludeOrder g fragments) := by
      rw [hsplit]
      exact (List.singleton_sublist.mpr hbefore).append
        (List.singleton_sublist.mpr List.mem_cons_self)
    have hne : f' ≠ f := by
      rintro rfl
      exact List.nodup_iff_sublist.mp hnodup' f' hsub
    exact (pair_sublist_or_swap hf' hf hne).resolve_right fun hswap =>
      not_sublist_swap hnodup' hsub (pair_sublist_preludeOrder (Nat.le_of_eq hsection.symm) hswap)
  · intro hsub
    have hsub := pair_sublist_preludeOrder (Nat.le_of_eq hsection) hsub
    rw [hsplit] at hsub hnodup'
    exact mem_of_pair_sublist hnodup' hsub

end Ctypes

end NativeTypes
